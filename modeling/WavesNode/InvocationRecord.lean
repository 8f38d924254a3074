/-
The record of a call: what the node keeps to answer what a call did.

A call is folded action by action, and the record is put together afterwards: the data from
the actions regrouped by class, the transfers from the diff's portfolios less the fee part,
the reissues and burns from the list of actions. Is the record what the diff did? Reissues and
burns are. The transfers are wherever the fee part can be taken out again without an overflow.
The data are where no key's last entry is regrouped before another one of that key; the map of
actions by class has no order of its own, so that whatever the order the data are right exactly
when no key is given values of two classes. And the bytes of a record give the record back when
no transfer is in an asset with an empty id, which the bytes read as Waves.
-/
import WavesNode.ActionSequences
import WavesNode.PaidFees
import WavesNode.PBEncoding
import WavesNode.Regrouping

set_option autoImplicit false

namespace WavesNode

/-! ## 1. The record in protobuf -/

/-- `InvokeScriptResult.Payment`, `Reissue` and `Burn` of the message. -/
structure PBInvokePayment where
  address : ByteStr
  amount : Option PBAmount
  deriving DecidableEq

structure PBReissue where
  assetId : ByteStr
  amount : Long
  isReissuable : Bool
  deriving DecidableEq

structure PBBurn where
  assetId : ByteStr
  amount : Long
  deriving DecidableEq

structure PBInvokeScriptResult where
  data : List PBDataEntry
  transfers : List PBInvokePayment
  reissues : List PBReissue
  burns : List PBBurn
  deriving DecidableEq

/-- The generated code: `PBUtils.encodeDeterministic` and `PBInvokeScriptResult.parseFrom`. -/
class PBInvokeScriptResultSerializer where
  encodeDeterministic : PBInvokeScriptResult → ByteStr
  parseFrom : ByteStr → Validation PBInvokeScriptResult

/-- A record with its transfers in the order in which the code lists the map. -/
structure ListedResult where
  data : List DataEntry
  transfers : List InvokePayment
  reissues : List Reissue
  burns : List Burn
  deriving DecidableEq

namespace ListedResult

def record (r : ListedResult) : InvokeScriptResult := ⟨r.data, r.transfers, r.reissues, r.burns⟩

/-- A record as equality sees it. -/
def plain (r : ListedResult) : ListedResult := { r with data := r.data.map DataEntry.plain }

end ListedResult

namespace InvokeScriptResult

def toPBPayment (payment : InvokePayment) : PBInvokePayment :=
  ⟨payment.address.bytes, some (PBAmounts.fromAssetIdAndAmount payment.asset payment.amount)⟩

def toPbReissue (r : Reissue) : PBReissue := ⟨r.assetId, r.quantity, r.isReissuable⟩

def toPbBurn (b : Burn) : PBBurn := ⟨b.assetId, b.quantity⟩

def toVanillaReissue (r : PBReissue) : Reissue := ⟨r.assetId, r.isReissuable, r.amount⟩

def toVanillaBurn (b : PBBurn) : Burn := ⟨b.assetId, b.amount⟩

def toPB (r : ListedResult) : PBInvokeScriptResult where
  data := r.data.map toPBDataEntry
  transfers := r.transfers.map toPBPayment
  reissues := r.reissues.map toPbReissue
  burns := r.burns.map toPbBurn

section
variable [Crypto]

def fromPBPayment (p : PBInvokePayment) : Validation InvokePayment := do
  let (asset, amount) := PBAmounts.toAssetAndAmount (p.amount.getD ⟨[], 0⟩)
  let address ← InvokeScriptTransactionDiff.transferRecipient p.address
  .ok ⟨address, asset, amount⟩

def fromPB (pbValue : PBInvokeScriptResult) : Validation ListedResult := do
  let data ← pbValue.data.mapM toVanillaDataEntry
  let transfers ← pbValue.transfers.mapM fromPBPayment
  .ok ⟨data, transfers, pbValue.reissues.map toVanillaReissue, pbValue.burns.map toVanillaBurn⟩

variable [PBInvokeScriptResultSerializer]

def toBytes (r : ListedResult) : ByteStr :=
  PBInvokeScriptResultSerializer.encodeDeterministic (toPB r)

def fromBytes (bs : ByteStr) : Validation ListedResult := do
  let pbValue ← PBInvokeScriptResultSerializer.parseFrom bs
  fromPB pbValue

end

end InvokeScriptResult

/-! ## 2. What a record is to say -/

namespace DataEntryValue

/-- The class of a `DataItem`. -/
inductive ItemClass where
  | Lng
  | Bool
  | Bin
  | Str
  deriving DecidableEq

def itemClass : DataEntryValue → ItemClass
  | .Integer _ => .Lng
  | .Boolean _ => .Bool
  | .Binary _ => .Bin
  | .String _ => .Str

end DataEntryValue

open DataEntryValue (ItemClass)

def DataEntry.itemClass (e : DataEntry) : ItemClass := e.value.itemClass

/-- The classes, in the order in which `dataEntriesOf` lists them. -/
def ItemClass.all : List ItemClass := [.Lng, .Bool, .Bin, .Str]

namespace InvokeScriptTransactionDiff

/-- The entries of a call whose map lists the classes of the actions in some order. -/
def dataEntriesIn (order : List ItemClass) (actions : List CallableAction) : List DataEntry :=
  regroup DataEntry.itemClass order (actions.filterMap CallableAction.dataItem?)

/-- Two changes of the supply. -/
def combineSupply (x y : FiniteMap IssuedAsset AssetInfo) : FiniteMap IssuedAsset AssetInfo :=
  .combineWith AssetInfo.combine x y

def reissueSupply (r : Reissue) : FiniteMap IssuedAsset AssetInfo :=
  .single ⟨r.assetId⟩ ⟨r.isReissuable, r.quantity.toInt⟩

def burnSupply (r : Burn) : FiniteMap IssuedAsset AssetInfo :=
  .single ⟨r.assetId⟩ ⟨true, (-r.quantity).toInt⟩

/-- The reissues and burns of a list of actions. -/
def supplyChanges (actions : List CallableAction) : List (FiniteMap IssuedAsset AssetInfo) :=
  (actions.filterMap CallableAction.reissue?).map reissueSupply ++
    (actions.filterMap CallableAction.burn?).map burnSupply

/-- The record of a call, for an order of the classes. -/
def invokeScriptResult (order : List ItemClass) (dApp : Address) (actions : List CallableAction)
    (feePart portfolios : Portfolios) : InvokeScriptResult where
  data := dataEntriesIn order actions
  transfers := recordedTransfers dApp (portfolios.combine (feePart.mapVal Portfolio.negate))
  reissues := actions.filterMap CallableAction.reissue?
  burns := actions.filterMap CallableAction.burn?

end InvokeScriptTransactionDiff

namespace InvokeScriptResult

/-- What the recorded entries, written in their order, change in the data of the contract. -/
def dataChange (r : InvokeScriptResult) (dApp : Address) : FiniteMap Address AccountDataInfo :=
  if r.data = [] then ∅ else .single dApp ⟨overwrite DataEntry.key r.data⟩

/-- What the recorded transfers add to a balance. -/
def received (r : InvokeScriptResult) (a : Address) (x : Asset) : ℤ :=
  (r.transfers.map fun p => if p.address = a ∧ p.asset = x then p.amount.toInt else 0).sum

open InvokeScriptTransactionDiff in
/-- What the recorded reissues and burns change in the supply of the assets. -/
def supplyChange (r : InvokeScriptResult) : FiniteMap IssuedAsset AssetInfo :=
  (r.reissues.map reissueSupply ++ r.burns.map burnSupply).foldl combineSupply ∅

/-- A record says what the call did. -/
structure Faithful [Crypto] [PBInvokeScriptResultSerializer] (dApp : Address)
    (actions : List CallableAction) (feePart : Portfolios) (d : Diff) (r : InvokeScriptResult) :
    Prop where
  data : r.dataChange dApp = d.accountData
  transfers : ∀ a x, a ≠ dApp →
    r.received a x = (d.portfolios.delta a x).toInt - (feePart.delta a x).toInt
  reissues : r.reissues = actions.filterMap CallableAction.reissue?
  burns : r.burns = actions.filterMap CallableAction.burn?
  supply : r.supplyChange = d.issuedAssets
  restored : ∀ l : ListedResult, l.record = r → ∃ l', fromBytes (toBytes l) = .ok l' ∧
    l'.plain = l.plain

end InvokeScriptResult

/-! ## 3. Data -/

namespace InvokeScriptTransactionDiff

variable {dApp : Address} {actions : List CallableAction}

/-- What entries change in the data of the contract, written in turn. -/
def written (dApp : Address) (entries : List DataEntry) : FiniteMap Address AccountDataInfo :=
  if entries = [] then ∅ else .single dApp ⟨overwrite DataEntry.key entries⟩

theorem dataChange_eq_written (r : InvokeScriptResult) :
    r.dataChange dApp = written dApp r.data := rfl

theorem written_append_singleton (entries : List DataEntry) (e : DataEntry) :
    written dApp (entries ++ [e]) =
      .combineWith AccountDataInfo.combine (written dApp entries)
        (.single dApp ⟨.single e.key e⟩) := by
  have hne : entries ++ [e] ≠ [] := by simp
  unfold written
  rw [if_neg hne, overwrite_append_singleton]
  by_cases hnil : entries = []
  · rw [if_pos hnil, hnil, FiniteMap.combineWith_empty_left]
    rfl
  · rw [if_neg hnil]
    ext a : 1
    rw [FiniteMap.get?_combineWith]
    by_cases ha : a = dApp
    · rw [ha, FiniteMap.get?_single_self, FiniteMap.get?_single_self, FiniteMap.get?_single_self]
      rfl
    · rw [FiniteMap.get?_single, FiniteMap.get?_single, FiniteMap.get?_single, if_neg ha, if_neg ha,
        if_neg ha]
      rfl

/-- Two lists of entries change the data alike when they write the same map. -/
theorem written_eq_written_iff {entries entries' : List DataEntry}
    (hnil : entries = [] ↔ entries' = []) :
    written dApp entries = written dApp entries' ↔
      overwrite DataEntry.key entries = overwrite DataEntry.key entries' := by
  unfold written
  by_cases h : entries = []
  · rw [if_pos h, if_pos (hnil.mp h), h, hnil.mp h]
    simp
  · rw [if_neg h, if_neg fun h' => h (hnil.mpr h')]
    constructor
    · intro heq
      have hget := congrArg (fun m => FiniteMap.get? m dApp) heq
      simp only [FiniteMap.get?_single_self, Option.some.injEq, AccountDataInfo.mk.injEq] at hget
      exact hget
    · intro heq
      rw [heq]

theorem ItemClass.nodup_all : ItemClass.all.Nodup := by decide

theorem ItemClass.mem_all (g : ItemClass) : g ∈ ItemClass.all := by
  cases g <;> decide

/-- Recorded in some order of the classes, the entries write what the actions wrote exactly
when no key's last entry is listed before another one of the key. -/
theorem written_dataEntriesIn_iff (dApp : Address) {order : List ItemClass}
    (horder : order.Perm ItemClass.all) :
    written dApp (dataEntriesIn order actions) =
        written dApp (actions.filterMap CallableAction.dataItem?) ↔
      LastInOrder DataEntry.key DataEntry.itemClass order
        (actions.filterMap CallableAction.dataItem?) := by
  have hmem : ∀ g, g ∈ order := fun g => horder.mem_iff.mpr (ItemClass.mem_all g)
  have hnil : dataEntriesIn order actions = [] ↔
      actions.filterMap CallableAction.dataItem? = [] := by
    rw [dataEntriesIn, regroup_eq_nil_iff, List.eq_nil_iff_forall_not_mem]
    simp only [hmem, not_true_eq_false]
  rw [written_eq_written_iff hnil]
  exact overwrite_regroup_eq_iff (horder.nodup_iff.mpr ItemClass.nodup_all) hmem

/-- The order of the model is one of the orders. -/
theorem dataEntriesOf_eq_dataEntriesIn :
    dataEntriesOf actions = dataEntriesIn ItemClass.all actions := by
  unfold dataEntriesOf dataEntriesIn regroup ItemClass.all
  simp only [List.flatMap_cons, List.flatMap_nil, List.append_nil, List.append_assoc]
  congr 1
  · exact List.filter_congr fun ⟨_, value, _⟩ _ => by cases value <;> rfl
  congr 1
  · exact List.filter_congr fun ⟨_, value, _⟩ _ => by cases value <;> rfl
  congr 1
  · exact List.filter_congr fun ⟨_, value, _⟩ _ => by cases value <;> rfl
  · exact List.filter_congr fun ⟨_, value, _⟩ _ => by cases value <;> rfl

variable [Crypto] [PBTransactionSerializer] [Ride]
variable {b : Blockchain} {blockTime : Long} {tx : InvokeScriptTransaction}

/-- What one action does to the data. -/
theorem applyAction_accountData {acc d : Diff} {action : CallableAction}
    (h : applyAction b blockTime tx dApp (.ok acc) action = .ok d) :
    d.accountData =
      match action.dataItem? with
      | some e => .single dApp ⟨.single e.key e⟩
      | none => ∅ := by
  cases action with
  | transfer t =>
    obtain ⟨address, -, -, rfl⟩ := applyTransfer_eq_ok h
    rfl
  | dataItem item =>
    cases h
    rfl
  | issue => simp [applyAction] at h
  | reissue r =>
    obtain ⟨h, -⟩ := applyReissue_eq_ok h
    obtain ⟨-, -, rfl⟩ := DiffsCommon.processReissue_eq_ok h
    rfl
  | burn r =>
    obtain ⟨h, -⟩ := applyBurn_eq_ok h
    obtain ⟨-, rfl⟩ := DiffsCommon.processBurn_eq_ok.mp h
    rfl

/-- A call writes the entries of its actions, in the order of the actions. -/
theorem foldActions_accountData {paymentsDiff d : Diff} {entries : List DataEntry}
    (hentries : paymentsDiff.accountData = written dApp entries)
    (h : foldActions b blockTime tx dApp actions paymentsDiff = .ok d) :
    d.accountData = written dApp (entries ++ actions.filterMap CallableAction.dataItem?) := by
  induction actions generalizing paymentsDiff entries with
  | nil =>
    rw [← foldActions_nil_eq_ok h, hentries, List.filterMap_nil, List.append_nil]
  | cons action rest ih =>
    obtain ⟨d', hd', hrest⟩ := foldActions_cons_eq_ok h
    have hdata := applyAction_accountData hd'
    cases hitem : action.dataItem? with
    | none =>
      rw [hitem] at hdata
      rw [List.filterMap_cons_none hitem]
      refine ih ?_ hrest
      change FiniteMap.combineWith AccountDataInfo.combine _ _ = _
      rw [hdata, FiniteMap.combineWith_empty_right, hentries]
    | some e =>
      rw [hitem] at hdata
      rw [List.filterMap_cons_some hitem, ← List.singleton_append, ← List.append_assoc]
      refine ih ?_ hrest
      change FiniteMap.combineWith AccountDataInfo.combine _ _ = _
      rw [hdata, hentries, written_append_singleton]

/-! ## 4. Reissues and burns -/

section
omit [Crypto] [PBTransactionSerializer] [Ride]

instance associative_combineSupply : Std.Associative combineSupply where
  assoc x y z := FiniteMap.combineWith_assoc_of _ x y z fun _ i j k _ _ _ =>
    AssetInfo.combine_assoc i j k

instance commutative_combineSupply : Std.Commutative combineSupply where
  comm x y := by
    ext a : 1
    unfold combineSupply
    rw [FiniteMap.get?_combineWith, FiniteMap.get?_combineWith]
    cases x.get? a with
    | none => simp
    | some i =>
      cases y.get? a with
      | none => simp
      | some j => simp [AssetInfo.combine, Bool.and_comm, add_comm]

theorem combineSupply_empty (x : FiniteMap IssuedAsset AssetInfo) : combineSupply x ∅ = x :=
  FiniteMap.combineWith_empty_right _ x

theorem empty_combineSupply (x : FiniteMap IssuedAsset AssetInfo) : combineSupply ∅ x = x :=
  FiniteMap.combineWith_empty_left _ x

/-- What one action does to the supply. -/
def actionSupply : CallableAction → FiniteMap IssuedAsset AssetInfo
  | .reissue r => reissueSupply r
  | .burn r => burnSupply r
  | _ => ∅

/-- The first action's change may be made before the others', of whatever kind they are. -/
theorem foldl_supplyChanges_cons (action : CallableAction) (rest : List CallableAction) :
    (supplyChanges (action :: rest)).foldl combineSupply ∅ =
      combineSupply (actionSupply action) ((supplyChanges rest).foldl combineSupply ∅) := by
  have hfirst (x : FiniteMap IssuedAsset AssetInfo) (l : List (FiniteMap IssuedAsset AssetInfo)) :
      (x :: l).foldl combineSupply ∅ = combineSupply x (l.foldl combineSupply ∅) := by
    rw [List.foldl_cons, empty_combineSupply]
    have hassoc : l.foldl combineSupply (combineSupply x ∅) =
        combineSupply x (l.foldl combineSupply ∅) := List.foldl_assoc
    rwa [combineSupply_empty] at hassoc
  cases action with
  | reissue r => exact hfirst (reissueSupply r) (supplyChanges rest)
  | burn r =>
    have hperm : (supplyChanges (.burn r :: rest)).Perm (burnSupply r :: supplyChanges rest) :=
      List.perm_middle
    rw [hperm.foldl_eq]
    exact hfirst (burnSupply r) (supplyChanges rest)
  | transfer t => exact (empty_combineSupply _).symm
  | dataItem d => exact (empty_combineSupply _).symm
  | issue => exact (empty_combineSupply _).symm

end

theorem applyAction_issuedAssets {acc d : Diff} {action : CallableAction}
    (h : applyAction b blockTime tx dApp (.ok acc) action = .ok d) :
    d.issuedAssets = actionSupply action := by
  cases action with
  | transfer t =>
    obtain ⟨address, -, -, rfl⟩ := applyTransfer_eq_ok h
    rfl
  | dataItem item =>
    cases h
    rfl
  | issue => simp [applyAction] at h
  | reissue r =>
    obtain ⟨h, -⟩ := applyReissue_eq_ok h
    obtain ⟨-, -, rfl⟩ := DiffsCommon.processReissue_eq_ok h
    rfl
  | burn r =>
    obtain ⟨h, -⟩ := applyBurn_eq_ok h
    obtain ⟨-, rfl⟩ := DiffsCommon.processBurn_eq_ok.mp h
    rfl

/-- A call changes the supply by its reissues and burns. -/
theorem foldActions_issuedAssets {paymentsDiff d : Diff}
    (h : foldActions b blockTime tx dApp actions paymentsDiff = .ok d) :
    d.issuedAssets = combineSupply paymentsDiff.issuedAssets
      ((supplyChanges actions).foldl combineSupply ∅) := by
  induction actions generalizing paymentsDiff with
  | nil =>
    rw [← foldActions_nil_eq_ok h]
    exact (combineSupply_empty _).symm
  | cons action rest ih =>
    obtain ⟨d', hd', hrest⟩ := foldActions_cons_eq_ok h
    have hcombined : (paymentsDiff.combine d').issuedAssets =
        combineSupply paymentsDiff.issuedAssets (actionSupply action) := by
      rw [← applyAction_issuedAssets hd']
      rfl
    rw [ih hrest, hcombined, foldl_supplyChanges_cons]
    exact associative_combineSupply.assoc _ _ _

/-! ## 5. Transfers -/

section
omit [Crypto] [PBTransactionSerializer] [Ride]

/-- Payments that count for nothing may be left out. -/
theorem sum_map_filter_of_zero {s : Multiset InvokePayment} {p : InvokePayment → Prop}
    [DecidablePred p] {φ : InvokePayment → ℤ} (hzero : ∀ x, ¬p x → φ x = 0) :
    ((s.filter p).map φ).sum = (s.map φ).sum := by
  induction s using Multiset.induction_on with
  | empty => rfl
  | cons x s ih =>
    by_cases hp : p x
    · rw [Multiset.filter_cons_of_pos _ hp, Multiset.map_cons, Multiset.sum_cons, ih,
        Multiset.map_cons, Multiset.sum_cons]
    · rw [Multiset.filter_cons_of_neg _ hp, ih, Multiset.map_cons, Multiset.sum_cons, hzero x hp,
        zero_add]

/-- The sum over what is collected from a map. -/
theorem sum_map_collect {κ υ ω : Type} [DecidableEq κ] (f : κ → υ → Option ω)
    (m : FiniteMap κ υ) (φ : ω → ℤ) :
    ((m.collect f).map φ).sum = m.total fun k v => (f k v).elim 0 φ := by
  have hsum (g : κ → Option ω) (s : Multiset κ) :
      ((s.filterMap g).map φ).sum = (s.map fun k => (g k).elim 0 φ).sum := by
    induction s using Multiset.induction_on with
    | empty => rfl
    | cons k s ih =>
      rw [Multiset.map_cons, Multiset.sum_cons, ← ih]
      cases hg : g k with
      | none =>
        rw [Multiset.filterMap_cons_none _ _ hg]
        exact (zero_add _).symm
      | some w =>
        rw [Multiset.filterMap_cons_some _ _ _ hg, Multiset.map_cons, Multiset.sum_cons]
        rfl
  rw [FiniteMap.collect, hsum, FiniteMap.total, Finset.sum]
  congr 2
  funext k
  cases m.get? k <;> rfl

/-- What the payments of one portfolio add to a balance. -/
theorem sum_paymentsFromPortfolio (addr a : Address) (pf : Portfolio) (x : Asset) :
    ((paymentsFromPortfolio addr pf).map fun p =>
        if p.address = a ∧ p.asset = x then p.amount.toInt else 0).sum =
      if addr = a then (pf.balanceOf x).toInt else 0 := by
  have hzero : ∀ p : InvokePayment, ¬p.amount ≠ 0 →
      (if p.address = a ∧ p.asset = x then p.amount.toInt else 0) = 0 := by
    intro p hp
    rw [not_not] at hp
    rw [hp, Long.toInt_zero, ite_self]
  unfold paymentsFromPortfolio
  rw [sum_map_filter_of_zero hzero, Multiset.map_add, Multiset.sum_add, sum_map_collect,
    Multiset.map_singleton, Multiset.sum_singleton]
  simp only [Option.elim_some]
  by_cases ha : addr = a
  · simp only [ha, true_and, if_true]
    cases x with
    | Waves =>
      -- no asset of the portfolio is Waves
      simp only [reduceCtorEq, if_false, if_true]
      rw [FiniteMap.total, Finset.sum_eq_zero, zero_add]
      · rfl
      · intro k _
        cases pf.assets.get? k <;> rfl
    | issued t =>
      simp only [reduceCtorEq, if_false, add_zero, Asset.issued.injEq]
      rw [FiniteMap.total, Finset.sum_eq_single t]
      · rw [Portfolio.balanceOf, FiniteMap.getOrElse]
        cases pf.assets.get? t with
        | none => exact Long.toInt_zero.symm
        | some amount => exact if_pos rfl
      · intro k _ hk
        cases pf.assets.get? k with
        | none => rfl
        | some amount => exact if_neg hk
      · intro ht
        rw [(FiniteMap.get?_eq_none_iff _ _).mpr ht]
        rfl
  · simp only [ha, false_and, if_false, add_zero]
    rw [FiniteMap.total, Finset.sum_eq_zero]
    intro k _
    cases pf.assets.get? k <;> rfl

/-- What a record says an account got: what the portfolios say, and nothing for the
contract. -/
theorem received_recordedTransfers {order : List ItemClass} {feePart portfolios : Portfolios}
    {a : Address} (ha : a ≠ dApp) (x : Asset) :
    (invokeScriptResult order dApp actions feePart portfolios).received a x =
      ((portfolios.combine (feePart.mapVal Portfolio.negate)).delta a x).toInt := by
  unfold InvokeScriptResult.received invokeScriptResult recordedTransfers
  generalize portfolios.combine (feePart.mapVal Portfolio.negate) = transfers
  dsimp only
  rw [Multiset.map_bind, Multiset.sum_bind]
  simp only [sum_paymentsFromPortfolio]
  change ∑ addr ∈ (transfers.filter fun recipient _ => recipient ≠ dApp).dom, _ = _
  rw [Finset.sum_ite_eq']
  by_cases hmem : a ∈ (transfers.filter fun recipient _ => recipient ≠ dApp).dom
  · rw [if_pos hmem]
    rfl
  · rw [if_neg hmem]
    rw [← FiniteMap.get?_eq_none_iff, FiniteMap.get?_filter] at hmem
    rw [Portfolios.delta, Portfolios.of, FiniteMap.getOrElse]
    cases hget : transfers.get? a with
    | none => cases x <;> rfl
    | some pf =>
      rw [hget] at hmem
      simp [ha] at hmem

theorem mem_paymentsFromPortfolio {addr : Address} {pf : Portfolio} {p : InvokePayment} :
    p ∈ paymentsFromPortfolio addr pf ↔
      p.address = addr ∧ p.amount ≠ 0 ∧ pf.balanceOf p.asset = p.amount := by
  obtain ⟨address, asset, amount⟩ := p
  unfold paymentsFromPortfolio FiniteMap.collect
  rw [Multiset.mem_filter, Multiset.mem_add, Multiset.mem_filterMap, Multiset.mem_singleton]
  simp only [Option.bind_eq_some_iff, Option.some.injEq, InvokePayment.mk.injEq]
  constructor
  · rintro ⟨⟨t, -, v, hget, rfl, rfl, rfl⟩ | ⟨rfl, rfl, rfl⟩, hne⟩
    · refine ⟨rfl, hne, ?_⟩
      rw [Portfolio.balanceOf, FiniteMap.getOrElse, hget, Option.getD_some]
    · exact ⟨rfl, hne, rfl⟩
  · rintro ⟨rfl, hne, hbalance⟩
    refine ⟨?_, hne⟩
    cases asset with
    | Waves => exact .inr ⟨rfl, rfl, hbalance.symm⟩
    | issued t =>
      rw [Portfolio.balanceOf, FiniteMap.getOrElse] at hbalance
      cases hget : pf.assets.get? t with
      | none =>
        rw [hget, Option.getD_none] at hbalance
        exact absurd hbalance.symm hne
      | some v =>
        rw [hget, Option.getD_some] at hbalance
        exact .inl ⟨t, FiniteMap.mem_dom_of_get? hget, v, hget, rfl, rfl, hbalance⟩

/-- The payments of a record: one for every balance that changed. -/
theorem mem_recordedTransfers {transfers : Portfolios} {p : InvokePayment} :
    p ∈ recordedTransfers dApp transfers ↔
      p.address ≠ dApp ∧ p.amount ≠ 0 ∧ transfers.delta p.address p.asset = p.amount := by
  unfold recordedTransfers
  rw [Multiset.mem_bind]
  simp only [mem_paymentsFromPortfolio]
  constructor
  · rintro ⟨addr, haddr, rfl, hne, hbalance⟩
    refine ⟨?_, hne, hbalance⟩
    rintro hdApp
    rw [Finset.mem_val, ← FiniteMap.contains_iff_mem_dom, FiniteMap.contains,
      FiniteMap.get?_filter, hdApp] at haddr
    cases hget : transfers.get? dApp <;> simp [hget] at haddr
  · rintro ⟨hdApp, hne, hbalance⟩
    refine ⟨p.address, ?_, rfl, hne, hbalance⟩
    rw [Finset.mem_val, ← FiniteMap.contains_iff_mem_dom, FiniteMap.contains,
      FiniteMap.get?_filter]
    cases hget : transfers.get? p.address with
    | some pf => simp [hdApp]
    | none =>
      -- an account without a portfolio got nothing
      have hzero : transfers.delta p.address p.asset = 0 := by
        rw [Portfolios.delta, Portfolios.of, FiniteMap.getOrElse, hget, Option.getD_none]
        cases p.asset <;> rfl
      exact absurd (hbalance.symm.trans hzero) hne

theorem delta_negate (feePart : Portfolios) (a : Address) (x : Asset) :
    Portfolios.delta (feePart.mapVal Portfolio.negate) a x = -feePart.delta a x := by
  have hnegate (pf : Portfolio) : pf.negate.balanceOf x = -pf.balanceOf x := by
    cases x with
    | Waves => exact Int64.zero_sub _
    | issued t =>
      simp only [Portfolio.negate, Portfolio.minus, Portfolio.balanceOf, Portfolio.empty,
        FiniteMap.getOrElse, FiniteMap.combineWith_empty_left, FiniteMap.get?_mapVal]
      cases pf.assets.get? t <;> rfl
  rw [Portfolios.delta, Portfolios.delta, Portfolios.of, Portfolios.of, FiniteMap.getOrElse,
    FiniteMap.getOrElse, FiniteMap.get?_mapVal]
  cases feePart.get? a with
  | none =>
    have hzero : Portfolio.empty.balanceOf x = 0 := by cases x <;> rfl
    rw [Option.map_none, Option.getD_none, hzero]
    rfl
  | some pf => exact hnegate pf

/-! ### Sums that leave the fee out -/

/-- The sum of amounts, as integers. -/
def total (l : List Long) : ℤ := (l.map Int64.toInt).sum

@[simp] theorem total_nil : total [] = 0 := rfl

@[simp] theorem total_cons (t : Long) (l : List Long) : total (t :: l) = t.toInt + total l :=
  rfl

/-- The fee part `fee` of an account can be left out again, after `paid` and the amounts
`received` were added to it: where the account pays the fee, unless the sum without the fee
overflows and the one with it does not; where it gets the fee, if at least the fee comes after
an overflow. -/
structure FeeLeavesOut (fee paid : Long) (received : List Long) : Prop where
  paying : fee.toInt < 0 → fee.toInt + paid.toInt + total received ≤ Long.MaxValue.toInt →
    paid.toInt + total received ≤ Long.MaxValue.toInt
  getting : 0 < fee.toInt → ∀ before t after, paid :: received = before ++ t :: after →
    fee.toInt + total before ≤ Long.MaxValue.toInt →
    Long.MaxValue.toInt < fee.toInt + total before + t.toInt → fee.toInt ≤ total after

theorem total_nonneg {l : List Long} (h : ∀ t ∈ l, 0 ≤ t.toInt) : 0 ≤ total l := by
  refine List.sum_nonneg ?_
  intro z hz
  obtain ⟨t, ht, rfl⟩ := List.mem_map.mp hz
  exact h t ht

/-- Where the sums of a list first leave the word. -/
theorem exists_overflow {l : List Long} {init : ℤ} (hinit : init ≤ Long.MaxValue.toInt)
    (h : Long.MaxValue.toInt < init + total l) :
    ∃ before t after, l = before ++ t :: after ∧ init + total before ≤ Long.MaxValue.toInt ∧
      Long.MaxValue.toInt < init + total before + t.toInt := by
  induction l generalizing init with
  | nil =>
    rw [total_nil] at h
    omega
  | cons t rest ih =>
    rw [total_cons] at h
    by_cases ht : init + t.toInt ≤ Long.MaxValue.toInt
    · obtain ⟨before, t', after, rfl, hbefore, hover⟩ := ih ht (by omega)
      refine ⟨t :: before, t', after, rfl, ?_, ?_⟩
      · rw [total_cons]
        omega
      · rw [total_cons]
        omega
    · exact ⟨[], t, rest, rfl, by rw [total_nil]; omega, by rw [total_nil]; omega⟩

/-- After an overflow the sum starts again from the least word. -/
theorem toInt_foldl_safeSum_overflow {init t : Long} {after : List Long}
    (hafter : ∀ y ∈ after, 0 ≤ y.toInt) (hsum : total after ≤ Long.MaxValue.toInt)
    (hover : Long.MaxValue.toInt < init.toInt + t.toInt) :
    ((t :: after).foldl safeSum init).toInt = Long.MinValue.toInt + total after := by
  have hnot : ¬Long.InRange (init.toInt + t.toInt) := by
    rintro ⟨-, hle⟩
    rw [Long.toInt_MaxValue] at hover
    omega
  rw [List.foldl_cons, safeSum_of_not_inRange hnot]
  refine toInt_foldl_safeSum hafter ?_
  change Long.MinValue.toInt + total after ≤ _
  have hmin : Long.MinValue.toInt < 0 := by decide
  omega

/-- An overflow, of the fee part and what was paid or of what was received after that, leaves
what is received later. -/
theorem toInt_foldl_safeSum_split {fee paid t : Long} {received before after : List Long}
    (hreceived : ∀ y ∈ received, 0 ≤ y.toInt) (htotal : total received ≤ Long.MaxValue.toInt)
    (hword : 0 ≤ fee.toInt ∨ Long.MinValue.toInt ≤ fee.toInt + paid.toInt)
    (hsplit : paid :: received = before ++ t :: after)
    (hbefore : fee.toInt + total before ≤ Long.MaxValue.toInt)
    (hover : Long.MaxValue.toInt < fee.toInt + total before + t.toInt) :
    (received.foldl safeSum (safeSum fee paid)).toInt = Long.MinValue.toInt + total after ∧
      0 ≤ total after ∧ total after ≤ Long.MaxValue.toInt := by
  have hfold : received.foldl safeSum (safeSum fee paid) =
      (paid :: received).foldl safeSum fee := rfl
  rw [hfold, hsplit, List.foldl_append]
  cases before with
  | nil =>
    -- the fee part and what was paid overflow
    rw [List.nil_append, List.cons.injEq] at hsplit
    rw [total_nil, add_zero] at hover
    rw [List.foldl_nil, ← hsplit.2]
    exact ⟨toInt_foldl_safeSum_overflow hreceived htotal hover, total_nonneg hreceived, htotal⟩
  | cons p rest =>
    rw [List.cons_append, List.cons.injEq] at hsplit
    obtain ⟨rfl, rfl⟩ := hsplit
    have hrest : ∀ y ∈ rest, 0 ≤ y.toInt := fun y hy => hreceived y (List.mem_append_left _ hy)
    have hlater : ∀ y ∈ after, 0 ≤ y.toInt := fun y hy =>
      hreceived y (List.mem_append_right _ (List.mem_cons_of_mem _ hy))
    have ht : 0 ≤ t.toInt := hreceived t (List.mem_append_right _ List.mem_cons_self)
    have hsum : total (rest ++ t :: after) = total rest + (t.toInt + total after) := by
      rw [total, List.map_append, List.sum_append]
      rfl
    have hrest' := total_nonneg hrest
    have hlater' := total_nonneg hlater
    have hpaid := Long.inRange_toInt paid
    unfold Long.InRange at hpaid
    rw [total_cons] at hbefore hover
    rw [hsum] at htotal
    rw [Long.toInt_MaxValue] at htotal hbefore
    rw [Long.toInt_MinValue] at hword
    -- up to there the sums are exact
    have hstart : (safeSum fee paid).toInt = fee.toInt + paid.toInt := by
      refine toInt_safeSum ?_
      unfold Long.InRange
      omega
    have hexact : (rest.foldl safeSum (safeSum fee paid)).toInt =
        fee.toInt + paid.toInt + total rest := by
      rw [toInt_foldl_safeSum hrest, hstart]
      · rfl
      · rw [hstart, Long.toInt_MaxValue]
        change _ + total rest ≤ _
        omega
    have hmax : total after ≤ Long.MaxValue.toInt := by
      rw [Long.toInt_MaxValue]
      omega
    refine ⟨toInt_foldl_safeSum_overflow hlater hmax ?_, hlater', hmax⟩
    rw [List.foldl_cons, hexact]
    omega

/-- **When the fee can be left out again**: the saturating sum of the fee part, what was paid
and what was received, less the fee part, is a word. -/
theorem inRange_sub_iff {fee paid : Long} {received : List Long}
    (hreceived : ∀ t ∈ received, 0 ≤ t.toInt) (htotal : total received ≤ Long.MaxValue.toInt) :
    Long.InRange ((received.foldl safeSum (safeSum fee paid)).toInt - fee.toInt) ↔
      FeeLeavesOut fee paid received := by
  have hnonneg := total_nonneg hreceived
  have hfee := Long.inRange_toInt fee
  have hpaid := Long.inRange_toInt paid
  unfold Long.InRange at hfee hpaid
  -- the sums are exact while they are words
  have hexact (hword : Long.MinValue.toInt ≤ fee.toInt + paid.toInt)
      (hle : fee.toInt + paid.toInt + total received ≤ Long.MaxValue.toInt) :
      (received.foldl safeSum (safeSum fee paid)).toInt =
        fee.toInt + paid.toInt + total received := by
    have hstart : (safeSum fee paid).toInt = fee.toInt + paid.toInt := by
      refine toInt_safeSum ?_
      unfold Long.InRange
      rw [Long.toInt_MaxValue] at hle
      rw [Long.toInt_MinValue] at hword
      omega
    rw [toInt_foldl_safeSum hreceived, hstart]
    · rfl
    · rw [hstart]
      exact hle
  rw [Long.toInt_MinValue, Long.toInt_MaxValue] at hexact
  have hbound := htotal
  rw [Long.toInt_MaxValue] at hbound
  constructor
  · intro hrange
    unfold Long.InRange at hrange
    constructor
    · intro hneg hle
      rw [Long.toInt_MaxValue] at hle ⊢
      by_cases hword : -9223372036854775808 ≤ fee.toInt + paid.toInt
      · rw [hexact hword hle] at hrange
        omega
      · -- the payments are so negative that nothing received makes up for them
        omega
    · intro hpos before t after hlist hbefore hover
      obtain ⟨hfold, -, -⟩ :=
        toInt_foldl_safeSum_split hreceived htotal (.inl hpos.le) hlist hbefore hover
      rw [hfold, Long.toInt_MinValue] at hrange
      omega
  · rintro ⟨hpaying, hgetting⟩
    unfold Long.InRange
    rw [Long.toInt_MaxValue] at hpaying
    by_cases hword : -9223372036854775808 ≤ fee.toInt + paid.toInt
    · by_cases hle : fee.toInt + paid.toInt + total received ≤ 9223372036854775807
      · rw [hexact hword hle]
        omega
      · have hmax : fee.toInt ≤ Long.MaxValue.toInt := by
          rw [Long.toInt_MaxValue]
          exact hfee.2
        obtain ⟨before, t, after, hlist, hbefore, hover⟩ := exists_overflow hmax
          (show Long.MaxValue.toInt < fee.toInt + total (paid :: received) by
            rw [total_cons, Long.toInt_MaxValue]
            omega)
        obtain ⟨hfold, hlater, hlater'⟩ := toInt_foldl_safeSum_split hreceived htotal
          (.inr (by rw [Long.toInt_MinValue]; exact hword)) hlist hbefore hover
        rw [hfold, Long.toInt_MinValue]
        rw [Long.toInt_MaxValue] at hlater'
        by_cases hpos : 0 < fee.toInt
        · have hreturned := hgetting hpos before t after hlist hbefore hover
          omega
        · omega
    · -- what was paid and the fee are below the least word, and the sum starts again from it
      have hnot : ¬Long.InRange (fee.toInt + paid.toInt) := fun hin => hword hin.1
      have hfold : (received.foldl safeSum (safeSum fee paid)).toInt =
          Long.MinValue.toInt + total received := by
        rw [safeSum_of_not_inRange hnot, toInt_foldl_safeSum hreceived]
        · rfl
        · rw [Long.toInt_MinValue, Long.toInt_MaxValue]
          change _ + total received ≤ _
          omega
      rw [hfold, Long.toInt_MinValue]
      omega

end

/-! ### The transfers of a record -/

section
omit [PBTransactionSerializer] [Ride]

/-- For every account but the contract's, and every asset, the fee part can be left out of what
the account's payments and the transfers to it come to. -/
def TransfersKept (tx : InvokeScriptTransaction) (dApp : Address)
    (actions : List CallableAction) (feePart : Portfolios) : Prop :=
  ∀ a x, a ≠ dApp →
    FeeLeavesOut (feePart.delta a x) ((payablePart tx dApp).delta a x) (amountsTo actions a x)

omit [Crypto] in
theorem toInt_neg_of_ne {y : Long} (hy : y ≠ Long.MinValue) : (-y).toInt = -y.toInt := by
  refine Long.toInt_neg ?_
  have hrange := Long.inRange_toInt y
  have hne : y.toInt ≠ -9223372036854775808 := by
    intro h
    exact hy (Long.toInt_inj (h.trans Long.toInt_MinValue.symm))
  unfold Long.InRange at hrange ⊢
  omega

omit [Crypto] in
/-- Leaving a word out again is exact when the difference is a word. -/
theorem toInt_safeSum_neg_iff {x y : Long} (hy : y ≠ Long.MinValue) :
    (safeSum x (-y)).toInt = x.toInt - y.toInt ↔ Long.InRange (x.toInt - y.toInt) := by
  have hneg := toInt_neg_of_ne hy
  constructor
  · intro h
    rw [← h]
    exact Long.inRange_toInt _
  · intro h
    rw [toInt_safeSum]
    · rw [hneg]
      omega
    · rw [hneg]
      exact h

end

/-- The Waves a call is charged, and with them the fee, are positive. -/
theorem AppliedCall.fee_pos {wavesFee : Long} {feePart : Portfolios} {compositeDiff d : Diff}
    (h : AppliedCall b blockTime tx dApp actions wavesFee feePart compositeDiff d) :
    0 < wavesFee.toInt ∧ 0 < tx.fee.toInt := by
  obtain ⟨script, complexity, -, hrun⟩ := h.run
  obtain ⟨n, hinvoked⟩ := h.invoked
  have hcovered := scriptsInvoked_covered (checkedAssets_le hrun) (length_actions_le h.checked)
    hinvoked
  have hwaves : 0 < wavesFee.toInt := by omega
  refine ⟨hwaves, ?_⟩
  rcases feeInfo_eq_ok h.fee with ⟨-, rfl, -⟩ | ⟨asset, desc, -, -, hrate, hcharged, -⟩
  · exact hwaves
  · -- a fee that is not positive is worth no Waves
    by_contra hfee
    have hrate' : 0 < desc.sponsorship.toInt := Long.pos_iff.mp hrate
    have hne : desc.sponsorship ≠ 0 := by
      rintro hzero
      rw [hzero, Long.toInt_zero] at hrate'
      exact absurd hrate' (lt_irrefl 0)
    unfold Sponsorship.toWaves at hcharged
    rw [if_neg hne, Validation.get_eq_ok, Long.longValueExact_eq_some] at hcharged
    have hle : (tx.fee.toInt * Sponsorship.FeeUnit).tdiv desc.sponsorship.toInt ≤ 0 := by
      have hnum : 0 ≤ -(tx.fee.toInt * Sponsorship.FeeUnit) := by
        rw [Sponsorship.FeeUnit]
        omega
      have hneg := Int.tdiv_nonneg hnum hrate'.le
      rw [Int.neg_tdiv] at hneg
      omega
    rw [hcharged.2] at hwaves
    omega

/-- No part of a fee is the least word. -/
theorem AppliedCall.feePart_ne {wavesFee : Long} {feePart : Portfolios}
    {compositeDiff d : Diff}
    (h : AppliedCall b blockTime tx dApp actions wavesFee feePart compositeDiff d) (a : Address)
    (x : Asset) : feePart.delta a x ≠ Long.MinValue := by
  obtain ⟨hwaves, hfee⟩ := h.fee_pos
  have hsmall {y : Long} (hy : -9223372036854775808 < y.toInt) : y ≠ Long.MinValue := by
    rintro rfl
    rw [Long.toInt_MinValue] at hy
    exact absurd hy (lt_irrefl _)
  have hneg {y : Long} (hy : 0 < y.toInt) : -y ≠ Long.MinValue := by
    refine hsmall ?_
    have hrange := Long.inRange_toInt y
    rw [Long.toInt_neg_of_pos hy]
    unfold Long.InRange at hrange
    omega
  have hzero : (0 : Long) ≠ Long.MinValue := by decide
  rcases feeInfo_eq_ok h.fee with ⟨-, -, rfl⟩ | ⟨asset, desc, -, -, -, -, rfl⟩
  · rw [Portfolios.delta_single, Portfolio.waves, Portfolio.balanceOf_build]
    split
    · split
      · exact hneg hfee
      · exact hzero
    · exact hzero
  · rw [Portfolios.delta_ofList_pair]
    split
    · cases x with
      | Waves => exact hneg hwaves
      | issued t =>
        rw [Portfolio.balanceOf, FiniteMap.getOrElse, FiniteMap.get?_single]
        split
        · exact hsmall (by rw [Option.getD_some]; omega)
        · exact hzero
    · split
      · rw [Portfolio.balanceOf_build]
        split
        · exact hneg hfee
        · exact hzero
      · exact hzero

/-- What a call does to an account that is not the contract's: its part of the fee, what it
pays, and what is transferred to it. -/
theorem AppliedCall.delta {wavesFee : Long} {feePart : Portfolios} {compositeDiff d : Diff}
    (h : AppliedCall b blockTime tx dApp actions wavesFee feePart compositeDiff d) {a : Address}
    (ha : a ≠ dApp) (x : Asset) :
    d.portfolios.delta a x = (amountsTo actions a x).foldl safeSum
      (safeSum (feePart.delta a x) ((payablePart tx dApp).delta a x)) := by
  rw [h.portfolios, foldActions_delta h.folded ha]
  change (amountsTo actions a x).foldl safeSum
    ((feePart.combine (payablePart tx dApp)).delta a x) = _
  rw [Portfolios.delta_combine]

/-- **Recorded transfers.** They are the changes net of the fee exactly when the fee can be
left out. -/
theorem AppliedCall.received_iff {wavesFee : Long} {feePart : Portfolios}
    {compositeDiff d : Diff}
    (h : AppliedCall b blockTime tx dApp actions wavesFee feePart compositeDiff d)
    (order : List ItemClass) :
    (∀ a x, a ≠ dApp →
        (invokeScriptResult order dApp actions feePart d.portfolios).received a x =
          (d.portfolios.delta a x).toInt - (feePart.delta a x).toInt) ↔
      TransfersKept tx dApp actions feePart := by
  obtain ⟨hpos, hsum, -⟩ := checkActions_eq_ok h.checked
  refine forall₂_congr fun a x => ?_
  refine forall_congr' fun ha => ?_
  obtain ⟨hnonneg, hbound⟩ := amountsTo_bounds hpos hsum a x
  have htotal : total (amountsTo actions a x) ≤ Long.MaxValue.toInt := by
    rw [Long.toInt_MaxValue]
    exact hbound
  rw [received_recordedTransfers ha, Portfolios.delta_combine, delta_negate,
    toInt_safeSum_neg_iff (h.feePart_ne a x), h.delta ha, inRange_sub_iff hnonneg htotal]

/-! ## 6. Bytes -/

section
omit [PBTransactionSerializer] [Ride]

/-- The address of a key, when the digests are as long as the code takes from them. -/
theorem onChain_toAddress {pk : PublicKey}
    (hlength : pk.toAddress.bytes.length = Address.AddressLength) : pk.toAddress.OnChain := by
  have hbytes : pk.toAddress.bytes =
      (Address.AddressVersion :: Crypto.chainId :: (Crypto.secureHash pk).take Address.HashLength) ++
        Address.calcCheckSum (Address.AddressVersion :: Crypto.chainId ::
          (Crypto.secureHash pk).take Address.HashLength) := rfl
  -- the body has the twenty bytes of the digest, since the checksum has four at most
  have hbody : (Address.AddressVersion :: Crypto.chainId ::
      (Crypto.secureHash pk).take Address.HashLength).length =
        Address.AddressLength - Address.ChecksumLength := by
    have htotal := hlength
    rw [hbytes, List.length_append, Address.calcCheckSum] at htotal
    simp only [List.length_cons, List.length_take, Address.AddressLength, Address.HashLength,
      Address.ChecksumLength] at htotal ⊢
    omega
  rw [Address.OnChain, Address.fromBytes, if_neg (not_not_intro hlength)]
  dsimp only
  rw [if_neg (not_not_intro (show pk.toAddress.bytes.getD 0 0 = Address.AddressVersion from rfl)),
    if_neg (not_not_intro (show pk.toAddress.bytes.getD 1 0 = Crypto.chainId from rfl)), if_neg]
  rw [not_not, hbytes, ← hbody, List.drop_left, List.take_left]

omit [Crypto] in
/-- A payment as the message has it. -/
def reread (p : InvokePayment) : InvokePayment :=
  { p with asset := PBAmounts.toVanillaAssetId (PBAmounts.toPBAssetId p.asset) }

omit [Crypto] in
theorem reread_eq_iff {p : InvokePayment} : reread p = p ↔ p.asset.Named := by
  rw [← PBAmounts.toVanillaAssetId_toPBAssetId]
  obtain ⟨address, asset, amount⟩ := p
  simp [reread]

omit [Crypto] in
theorem map_reread_eq_iff {l : List InvokePayment} :
    l.map reread = l ↔ ∀ p ∈ l, p.asset.Named := by
  induction l with
  | nil => simp
  | cons p rest ih =>
    rw [List.map_cons, List.cons.injEq, ih, List.forall_mem_cons, reread_eq_iff]

theorem fromPBPayment_toPBPayment {p : InvokePayment} (h : p.address.OnChain) :
    InvokeScriptResult.fromPBPayment (InvokeScriptResult.toPBPayment p) = .ok (reread p) := by
  rw [Address.OnChain] at h
  simp only [InvokeScriptResult.fromPBPayment, InvokeScriptResult.toPBPayment, transferRecipient, h,
    Option.getD_some, PBAmounts.toAssetAndAmount, PBAmounts.fromAssetIdAndAmount,
    Validation.ok_bind]
  rfl

theorem mapM_fromPBPayment {l : List InvokePayment} (h : ∀ p ∈ l, p.address.OnChain) :
    (l.map InvokeScriptResult.toPBPayment).mapM InvokeScriptResult.fromPBPayment =
      .ok (l.map reread) := by
  induction l with
  | nil => rfl
  | cons p rest ih =>
    rw [List.forall_mem_cons] at h
    rw [List.map_cons, List.mapM_cons, fromPBPayment_toPBPayment h.1, ih h.2]
    rfl

/-- What a message gives back: everything but the assets with an empty id. -/
theorem fromPB_toPB {l : ListedResult} (h : ∀ p ∈ l.transfers, p.address.OnChain) :
    InvokeScriptResult.fromPB (InvokeScriptResult.toPB l) =
      .ok { l.plain with transfers := l.transfers.map reread } := by
  have hreissues : (l.reissues.map InvokeScriptResult.toPbReissue).map
      InvokeScriptResult.toVanillaReissue = l.reissues := by
    rw [List.map_map]
    exact List.map_id _
  have hburns : (l.burns.map InvokeScriptResult.toPbBurn).map
      InvokeScriptResult.toVanillaBurn = l.burns := by
    rw [List.map_map]
    exact List.map_id _
  unfold InvokeScriptResult.fromPB InvokeScriptResult.toPB
  dsimp only
  rw [mapM_toVanillaDataEntry, Validation.ok_bind, mapM_fromPBPayment h, Validation.ok_bind,
    hreissues, hburns]
  rfl

/-- **The bytes of a record** give it back, in whatever order its transfers are listed, exactly
when no transfer is in an asset with an empty id. -/
theorem restored_iff [PBInvokeScriptResultSerializer] {r : InvokeScriptResult}
    (haddresses : ∀ p ∈ r.transfers, p.address.OnChain)
    (hmessage : ∀ l : ListedResult, l.record = r → PBInvokeScriptResultSerializer.parseFrom
      (PBInvokeScriptResultSerializer.encodeDeterministic (InvokeScriptResult.toPB l)) =
        .ok (InvokeScriptResult.toPB l)) :
    (∀ l : ListedResult, l.record = r → ∃ l', InvokeScriptResult.fromBytes
        (InvokeScriptResult.toBytes l) = .ok l' ∧ l'.plain = l.plain) ↔
      ∀ p ∈ r.transfers, p.asset.Named := by
  have hread {l : ListedResult} (hl : l.record = r) :
      InvokeScriptResult.fromBytes (InvokeScriptResult.toBytes l) =
        .ok { l.plain with transfers := l.transfers.map reread } := by
    have hlisted : ∀ p ∈ l.transfers, p.address.OnChain := by
      intro p hp
      refine haddresses p ?_
      rw [← hl]
      exact Multiset.mem_coe.mpr hp
    rw [InvokeScriptResult.fromBytes, InvokeScriptResult.toBytes, hmessage l hl,
      Validation.ok_bind, fromPB_toPB hlisted]
  have hiff {l : ListedResult} (hl : l.record = r) :
      (∃ l', InvokeScriptResult.fromBytes (InvokeScriptResult.toBytes l) = .ok l' ∧
        l'.plain = l.plain) ↔ ∀ p ∈ l.transfers, p.asset.Named := by
    rw [hread hl]
    simp only [Except.ok.injEq, exists_eq_left', ListedResult.plain, ListedResult.mk.injEq,
      List.map_map, and_true]
    have hplain : DataEntry.plain ∘ DataEntry.plain = DataEntry.plain := rfl
    rw [hplain, and_iff_right rfl, map_reread_eq_iff]
  constructor
  · intro hall
    -- some list has these transfers
    obtain ⟨transfers, htransfers⟩ := Quot.exists_rep r.transfers
    have hl : (⟨r.data, transfers, r.reissues, r.burns⟩ : ListedResult).record = r := by
      unfold ListedResult.record
      obtain ⟨data, _, reissues, burns⟩ := r
      cases htransfers
      rfl
    intro p hp
    refine (hiff hl).mp (hall _ hl) p ?_
    rw [← Multiset.mem_coe]
    rwa [← hl] at hp
  · intro hnamed l hl
    refine (hiff hl).mpr fun p hp => hnamed p ?_
    rw [← hl]
    exact Multiset.mem_coe.mpr hp

end

/-! ## 7. Accepted calls -/

/-- No account but the contract's is left, its part of the fee aside, with an amount of the asset
with an empty id. -/
def NothingUnnamed (tx : InvokeScriptTransaction) (dApp : Address)
    (actions : List CallableAction) (feePart : Portfolios) : Prop :=
  ∀ a, a ≠ dApp → (amountsTo actions a (.issued ⟨[]⟩)).foldl safeSum
    (safeSum (feePart.delta a (.issued ⟨[]⟩)) ((payablePart tx dApp).delta a (.issued ⟨[]⟩))) =
      feePart.delta a (.issued ⟨[]⟩)

section

variable {wavesFee : Long} {feePart : Portfolios} {compositeDiff d : Diff}

omit [Crypto] [PBTransactionSerializer] [Ride] in
/-- A sum is the word it is compared with when nothing is left of their difference. -/
theorem safeSum_neg_eq_zero_iff {x y : Long} (hy : y ≠ Long.MinValue) :
    safeSum x (-y) = 0 ↔ x = y := by
  constructor
  · intro h
    by_contra hne
    by_cases hrange : Long.InRange (x.toInt - y.toInt)
    · have hexact := (toInt_safeSum_neg_iff hy).mpr hrange
      rw [h, Long.toInt_zero] at hexact
      exact hne (Long.toInt_inj (by omega))
    · have hmin : safeSum x (-y) = Long.MinValue := by
        refine safeSum_of_not_inRange ?_
        rwa [toInt_neg_of_ne hy, ← sub_eq_add_neg]
      rw [hmin] at h
      exact absurd h (by decide)
  · rintro rfl
    refine Long.toInt_inj ?_
    have hrange : Long.InRange (x.toInt - x.toInt) := by
      unfold Long.InRange
      omega
    rw [(toInt_safeSum_neg_iff hy).mpr hrange, Long.toInt_zero]
    omega

/-- Every action of a call was applied. -/
theorem exists_applyAction {paymentsDiff d : Diff} {action : CallableAction}
    (h : foldActions b blockTime tx dApp actions paymentsDiff = .ok d)
    (haction : action ∈ actions) :
    ∃ acc d', applyAction b blockTime tx dApp (.ok acc) action = .ok d' := by
  induction actions generalizing paymentsDiff with
  | nil => exact absurd haction List.not_mem_nil
  | cons first rest ih =>
    obtain ⟨d', hd', hrest⟩ := foldActions_cons_eq_ok h
    rcases List.mem_cons.mp haction with rfl | hmem
    · exact ⟨_, d', hd'⟩
    · exact ih hrest hmem

/-- The accounts of a record are of the node's chain: those that are not the sender were read
from the bytes of a recipient. -/
theorem AppliedCall.onChain
    (h : AppliedCall b blockTime tx dApp actions wavesFee feePart compositeDiff d)
    (hlength : tx.sender.toAddress.bytes.length = Address.AddressLength) {p : InvokePayment}
    (hp : p ∈ recordedTransfers dApp (d.portfolios.combine (feePart.mapVal Portfolio.negate))) :
    p.address.OnChain := by
  obtain ⟨hdApp, hne, hamount⟩ := mem_recordedTransfers.mp hp
  by_cases hsender : p.address = tx.sender.toAddress
  · rw [hsender]
    exact onChain_toAddress hlength
  · cases hamounts : amountsTo actions p.address p.asset with
    | nil =>
      -- an account that neither pays nor gets anything has nothing but its part of the fee
      rw [Portfolios.delta_combine, delta_negate, h.delta hdApp, hamounts, List.foldl_nil,
        payablePart_delta hsender hdApp, safeSum_zero] at hamount
      have hzero := (safeSum_neg_eq_zero_iff (h.feePart_ne p.address p.asset)).mpr rfl
      exact absurd (hamount.symm.trans hzero) hne
    | cons amount rest =>
      have hmem : amount ∈ amountsTo actions p.address p.asset := by
        rw [hamounts]
        exact List.mem_cons_self
      obtain ⟨t, ht, -⟩ := List.mem_map.mp hmem
      rw [List.mem_filter, List.mem_filterMap, AssetTransfer.isTo, Bool.and_eq_true] at ht
      obtain ⟨⟨action, haction, htransfer⟩, hto, -⟩ := ht
      have hrecipient : t.recipient = p.address.bytes := of_decide_eq_true hto
      -- the transfer was applied, so its recipient is an address
      obtain ⟨acc, d', happlied⟩ := exists_applyAction h.folded haction
      have hcase : action = .transfer t := by
        cases action with
        | transfer t' => exact congrArg CallableAction.transfer (Option.some.inj htransfer)
        | dataItem _ => cases htransfer
        | issue => cases htransfer
        | reissue _ => cases htransfer
        | burn _ => cases htransfer
      rw [hcase] at happlied
      obtain ⟨address, haddress, -⟩ := Validation.bind_eq_ok.mp happlied
      rw [hrecipient, transferRecipient] at haddress
      cases hread : Address.fromBytes p.address.bytes with
      | error e => simp [hread] at haddress
      | ok a =>
        have hbytes := Address.fromBytes_bytes hread
        rw [Address.OnChain, hread]
        obtain ⟨bytes⟩ := a
        rw [show bytes = p.address.bytes from hbytes]

/-- No recorded transfer is in an asset with an empty id exactly when nothing is left of one. -/
theorem AppliedCall.named_iff
    (h : AppliedCall b blockTime tx dApp actions wavesFee feePart compositeDiff d) :
    (∀ p ∈ recordedTransfers dApp (d.portfolios.combine (feePart.mapVal Portfolio.negate)),
        p.asset.Named) ↔
      NothingUnnamed tx dApp actions feePart := by
  have hamount {a : Address} (ha : a ≠ dApp) (x : Asset) :
      (d.portfolios.combine (feePart.mapVal Portfolio.negate)).delta a x = safeSum
        ((amountsTo actions a x).foldl safeSum (safeSum (feePart.delta a x)
          ((payablePart tx dApp).delta a x))) (-feePart.delta a x) := by
    rw [Portfolios.delta_combine, delta_negate, h.delta ha]
  constructor
  · intro hall a ha
    by_contra hne
    have hrecorded : (⟨a, .issued ⟨[]⟩, (d.portfolios.combine (feePart.mapVal
        Portfolio.negate)).delta a (.issued ⟨[]⟩)⟩ : InvokePayment) ∈ recordedTransfers dApp
          (d.portfolios.combine (feePart.mapVal Portfolio.negate)) := by
      refine mem_recordedTransfers.mpr ⟨ha, ?_, rfl⟩
      dsimp only
      rw [hamount ha]
      exact fun hzero => hne ((safeSum_neg_eq_zero_iff (h.feePart_ne a _)).mp hzero)
    exact hall _ hrecorded rfl
  · intro hnothing p hp hunnamed
    obtain ⟨hdApp, hne, hp⟩ := mem_recordedTransfers.mp hp
    rw [hunnamed, hamount hdApp, hnothing p.address hdApp] at hp
    have hzero := (safeSum_neg_eq_zero_iff
      (h.feePart_ne p.address (.issued ⟨[]⟩))).mpr rfl
    exact hne (hp.symm.trans hzero)

/-- The record that an accepted call keeps, in the order of the model. -/
theorem AppliedCall.scriptResults
    (h : AppliedCall b blockTime tx dApp actions wavesFee feePart compositeDiff d)
    (happly : apply b blockTime tx = .ok d) :
    d.scriptResults = .single (Transaction.invokeScript tx).id
      (invokeScriptResult ItemClass.all dApp actions feePart d.portfolios) := by
  obtain ⟨script, complexity, hscript, hrun⟩ := h.run
  unfold apply at happly
  obtain ⟨dAppAddress, hdapp, happly⟩ := Validation.bind_eq_ok.mp happly
  obtain rfl : dAppAddress = dApp := Except.ok.inj (hdapp.symm.trans h.dApp)
  rw [hscript] at happly
  dsimp only at happly
  split at happly
  · rw [hrun] at happly
    unfold ofActions at happly
    obtain ⟨⟨⟩, -, happly⟩ := Validation.bind_eq_ok.mp happly
    obtain ⟨⟨wavesFee', feePart'⟩, hfee, happly⟩ := Validation.bind_eq_ok.mp happly
    obtain ⟨n, -, happly⟩ := Validation.bind_eq_ok.mp happly
    obtain ⟨compositeDiff', -, happly⟩ := Validation.bind_eq_ok.mp happly
    have hpair : (wavesFee', feePart') = (wavesFee, feePart) :=
      Except.ok.inj (hfee.symm.trans h.fee)
    obtain ⟨rfl, rfl⟩ := Prod.mk.inj hpair
    rw [← Except.ok.inj happly]
    dsimp only
    rw [dataEntriesOf_eq_dataEntriesIn]
    rfl
  · simp at happly

/-- An accepted call is recorded faithfully, for an order of the classes of its entries, exactly
when no key's last entry is listed before another one of the key, the fee can be left out of
every account's changes, and none of them is in the asset with an empty id. -/
theorem AppliedCall.faithful_iff [PBInvokeScriptResultSerializer]
    (h : AppliedCall b blockTime tx dApp actions wavesFee feePart compositeDiff d)
    {order : List ItemClass} (horder : order.Perm ItemClass.all)
    (hlength : tx.sender.toAddress.bytes.length = Address.AddressLength)
    (hmessage : ∀ l : ListedResult,
      l.record = invokeScriptResult order dApp actions feePart d.portfolios →
        PBInvokeScriptResultSerializer.parseFrom
          (PBInvokeScriptResultSerializer.encodeDeterministic (InvokeScriptResult.toPB l)) =
            .ok (InvokeScriptResult.toPB l)) :
    (invokeScriptResult order dApp actions feePart d.portfolios).Faithful dApp actions feePart d ↔
      LastInOrder DataEntry.key DataEntry.itemClass order
          (actions.filterMap CallableAction.dataItem?) ∧
        TransfersKept tx dApp actions feePart ∧ NothingUnnamed tx dApp actions feePart := by
  have hdata : d.accountData = written dApp (actions.filterMap CallableAction.dataItem?) := by
    have hempty : (paymentsPart tx dApp feePart).accountData = written dApp [] := rfl
    rw [h.accountData]
    exact foldActions_accountData hempty h.folded
  have hsupply : (invokeScriptResult order dApp actions feePart d.portfolios).supplyChange =
      d.issuedAssets := by
    rw [h.issuedAssets, foldActions_issuedAssets h.folded]
    exact (empty_combineSupply _).symm
  have hrestored := (restored_iff (fun p hp => h.onChain hlength hp) hmessage).trans h.named_iff
  constructor
  · intro hfaithful
    refine ⟨(written_dataEntriesIn_iff dApp horder).mp ?_, ?_, ?_⟩
    · rw [← hdata]
      exact hfaithful.data
    · exact (h.received_iff order).mp hfaithful.transfers
    · exact hrestored.mp hfaithful.restored
  · rintro ⟨hinOrder, hkept, hnamed⟩
    exact
      { data := ((written_dataEntriesIn_iff dApp horder).mpr hinOrder).trans hdata.symm
        transfers := (h.received_iff order).mpr hkept
        reissues := rfl
        burns := rfl
        supply := hsupply
        restored := hrestored.mpr hnamed }

end

end InvokeScriptTransactionDiff

/-! ## 8. Two keys, two classes

The contract writes a string and then a number under one key, and a number and then a string
under another. Whichever of the two classes is listed first, one of the keys is recorded with
its older value. -/

namespace Devnet

def crossedEntries : List CallableAction :=
  [.dataItem ⟨"a", .String "x", none⟩, .dataItem ⟨"a", .Integer 1, none⟩,
    .dataItem ⟨"b", .Integer 1, none⟩, .dataItem ⟨"b", .String "x", none⟩]

/-- The record that lists the numbers first. -/
def numbersFirst : ListedResult :=
  ⟨[⟨"a", .Integer 1, none⟩, ⟨"b", .Integer 1, none⟩, ⟨"a", .String "x", none⟩,
    ⟨"b", .String "x", none⟩], [], [], []⟩

/-- The record that lists the strings first. -/
def stringsFirst : ListedResult :=
  ⟨[⟨"a", .String "x", none⟩, ⟨"b", .String "x", none⟩, ⟨"a", .Integer 1, none⟩,
    ⟨"b", .Integer 1, none⟩], [], [], []⟩

/-- The two messages with their bytes. -/
def crossedMessages : List (PBInvokeScriptResult × ByteStr) :=
  [(InvokeScriptResult.toPB numbersFirst,
      bytes 30 0x0a050a016150010a050a016250010a060a01616a01780a060a01626a0178),
    (InvokeScriptResult.toPB stringsFirst,
      bytes 30 0x0a060a01616a01780a060a01626a01780a050a016150010a050a01625001)]

@[reducible] def crossedSerializer : PBInvokeScriptResultSerializer where
  encodeDeterministic m :=
    ((crossedMessages.find? fun entry => entry.1 = m).map Prod.snd).getD []
  parseFrom bs :=
    match crossedMessages.find? fun entry => entry.2 = bs with
    | some entry => .ok entry.1
    | none => .throwing "InvalidProtocolBufferException"

end Devnet

section
open Devnet BlockchainUpdaterImpl InvokeScriptTransactionDiff

local instance crossedCrypto : Crypto := (contractBlocks crossedEntries).crypto
local instance crossedTransactions : PBTransactionSerializer := pbTransactionSerializer
local instance crossedBlocks : BlockSerializer := (contractBlocks crossedEntries).blockSerializer
local instance crossedRide : Ride := (contractBlocks crossedEntries).ride
local instance crossedResults : PBInvokeScriptResultSerializer := crossedSerializer

namespace Devnet

/-- The node after the contract's block. -/
def crossedNode : Validation BlockchainUpdaterImpl :=
  (ofBlockchain (Blockchain.initial contractSettings)).processBlocks [genesisBlock, contractBlock]

def crossedLedger : Blockchain :=
  (crossedNode >>= ledger).toOption.getD (Blockchain.initial contractSettings)

def crossedDiff : Diff :=
  (apply crossedLedger 1500000000000 contractCall).toOption.getD Diff.empty

end Devnet

/-- The ledger after the contract's block, and the call on it, which sends nothing to anyone. -/
theorem crossedEntries_run :
    ((crossedNode >>= ledger).toOption.isSome ∧
        crossedLedger.accountScript alice.address = contractScript.script ∧
        contractScript.script.map (fun script => runContract crossedLedger script contractCall) =
          some (.ok (crossedEntries, 1)) ∧
        contractCall.sender.toAddress = bob.address) ∧
      (apply crossedLedger 1500000000000 contractCall).toOption.isSome ∧
      recordedTransfers alice.address
        (crossedDiff.portfolios.combine (callFee.mapVal Portfolio.negate)) = 0 ∧
      contractCall.sender.toAddress.bytes.length = Address.AddressLength ∧
      (crossedDiff.accountData.get? alice.address).map (fun info =>
        (info.data.get? "a", info.data.get? "b")) =
          some (some ⟨"a", .Integer 1, none⟩, some ⟨"b", .String "x", none⟩) := by
  decide +kernel

theorem crossedLedger_reachable :
    ∃ u, Reachable contractSettings u ∧ u.ledger = .ok crossedLedger := by
  have hrun : crossedNode >>= ledger = .ok crossedLedger :=
    Validation.eq_ok_getD crossedEntries_run.1.1
  obtain ⟨u, hu, hledger⟩ := Validation.bind_eq_ok.mp hrun
  exact ⟨u, Reachable.initial.processBlocks hu, hledger⟩

theorem accountScript_crossedLedger :
    crossedLedger.accountScript alice.address = contractScript.script :=
  crossedEntries_run.1.2.1

theorem runContract_crossedEntries :
    contractScript.script.map (fun script => runContract crossedLedger script contractCall) =
      some (.ok (crossedEntries, 1)) :=
  crossedEntries_run.1.2.2.1

theorem feeInfo_crossedLedger : feeInfo crossedLedger contractCall = .ok (500000, callFee) := by
  obtain ⟨⟨-, -, -, hsender⟩, -, -⟩ := crossedEntries_run
  unfold feeInfo callFee
  rw [hsender]
  rfl

theorem apply_crossedEntries :
    apply crossedLedger 1500000000000 contractCall = .ok crossedDiff :=
  Validation.eq_ok_getD crossedEntries_run.2.1

/-- There are two records, whatever the order of the classes. -/
theorem dataEntriesIn_crossedEntries {order : List DataEntryValue.ItemClass}
    (horder : order.Perm ItemClass.all) :
    dataEntriesIn order crossedEntries = numbersFirst.data ∨
      dataEntriesIn order crossedEntries = stringsFirst.data := by
  -- only numbers and strings have entries
  let occurs : DataEntryValue.ItemClass → Bool := fun g => g = .Lng ∨ g = .Str
  have hfilter : dataEntriesIn (order.filter occurs) crossedEntries =
      dataEntriesIn order crossedEntries := by
    refine regroup_filter ?_
    decide
  have hpair : (order.filter occurs).Perm [.Lng, .Str] := horder.filter occurs
  rw [← hfilter]
  rcases hcase : order.filter occurs with _ | ⟨g, _ | ⟨g', _ | ⟨_, _⟩⟩⟩
  · rw [hcase] at hpair
    exact absurd hpair.length_eq (by decide)
  · rw [hcase] at hpair
    exact absurd hpair.length_eq (by simp)
  · rw [hcase] at hpair
    revert hpair
    cases g <;> cases g' <;> decide
  · rw [hcase] at hpair
    exact absurd hpair.length_eq (by simp)

/-- Both messages are read from their bytes. -/
theorem parseFrom_crossedMessages {order : List DataEntryValue.ItemClass}
    (horder : order.Perm ItemClass.all) {l : ListedResult}
    (hl : l.record = invokeScriptResult order alice.address crossedEntries callFee
      crossedDiff.portfolios) :
    PBInvokeScriptResultSerializer.parseFrom
        (PBInvokeScriptResultSerializer.encodeDeterministic (InvokeScriptResult.toPB l)) =
      .ok (InvokeScriptResult.toPB l) := by
  obtain ⟨data, transfers, reissues, burns⟩ := l
  rw [ListedResult.record, invokeScriptResult, crossedEntries_run.2.2.1,
    InvokeScriptResult.mk.injEq, Multiset.coe_eq_zero] at hl
  obtain ⟨hdata, htransfers, hreissues, hburns⟩ := hl
  dsimp only at hdata htransfers hreissues hburns
  have hrecords : (⟨data, transfers, reissues, burns⟩ : ListedResult) = numbersFirst ∨
      (⟨data, transfers, reissues, burns⟩ : ListedResult) = stringsFirst := by
    rw [htransfers, hreissues, hburns]
    rcases dataEntriesIn_crossedEntries horder with hcase | hcase
    · rw [hdata, hcase]
      exact .inl rfl
    · rw [hdata, hcase]
      exact .inr rfl
  rcases hrecords with heq | heq
  · rw [heq]
    rfl
  · rw [heq]
    rfl

/-- The entries of the call, by order of the classes, write other data than its actions. -/
theorem dataChange_crossedEntries (r : InvokeScriptResult)
    (hr : r.data = numbersFirst.data ∨ r.data = stringsFirst.data) :
    r.dataChange alice.address ≠ crossedDiff.accountData := by
  have hbound := crossedEntries_run.2.2.2.2
  intro heq
  rw [← heq, dataChange_eq_written, written] at hbound
  rcases hr with hr | hr
  · rw [hr] at hbound
    exact absurd hbound (by decide +kernel)
  · rw [hr] at hbound
    exact absurd hbound (by decide +kernel)

end

end WavesNode
