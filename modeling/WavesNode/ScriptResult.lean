/-
What a call returns, read back as actions.

The value is taken apart by hand: names of types and fields are matched one by one, and what
does not match is an error. A field is read in two ways. Where it may be missing, the match
sees that it is; elsewhere it is taken out of the object as if it were there, and a value
without it makes the decoder throw. An `Issue` has no decoder at all.

§3 says which values each part takes and which it refuses, and §5 compares that with the
declared return type: a transfer to an alias is declared and not taken, an `Issue` is declared
and throws, and any object without fields is taken for the absent asset.
-/
import WavesNode.Decoding
import WavesNode.WavesTypes

set_option autoImplicit false

namespace WavesNode

namespace Lang

/-- `ScriptResult`. -/
inductive ScriptResult where
  | V3 (ds : List DataEntry) (ts : List AssetTransfer)
  | V4 (actions : List CallableAction)

namespace ScriptResult

open Decoding (Result Decides Meets FirstRefused)
open WavesTypes (callableReturnType addressType)

/-- The fields of an object. -/
abbrev Fields : Type := List (String × EVALUATED)

/-! ## 1. Errors -/

/-- What an error quotes in place of the expected type. -/
inductive Actual where
  /-- `can't reconstruct $dataType from $fields` -/
  | dataEntry (dataType : String) (fields : Fields)
  /-- `can't reconstruct token from $other` -/
  | token (other : EVALUATED)
  /-- `can't reconstruct address from $other` -/
  | address (other : EVALUATED)
  | value (v : EVALUATED)
  | name (f : String)
  | tuple (vs : List (Option EVALUATED))
  | arguments (e : EVALUATED) (version : StdLibVersion)

/-- `ExecutionError`: the text of `callableResultError` is kept as what it is made of. -/
inductive ExecutionError where
  | notSupported (text : String)
  | callableResult (expected : FINAL) (actual : Actual) (insteadOf : String)

/-- What is thrown: by `Map.apply`, and by `???`. -/
inductive Thrown where
  | NoSuchElementException (key : String)
  | NotImplementedError

abbrev Decoded (α : Type) : Type := Result Thrown ExecutionError α

def err {α : Type} (actual : Actual) (version : StdLibVersion) (expected : String := "") :
    Decoded α :=
  match callableReturnType version with
  | .ok t => .left (.callableResult t actual expected)
  | .error text => .left (.notSupported text)

/-- `fields(key)`. -/
def get (fields : Fields) (key : String) : Decoded EVALUATED :=
  match EVALUATED.field fields key with
  | some v => .right v
  | none => .thrown (.NoSuchElementException key)

/-! ## 2. The decoders -/

def processDataEntryPartially (valueExtractor : EVALUATED → Option DataEntryValue) :
    Option EVALUATED × Option EVALUATED → Option DataEntry
  | (some (.CONST_STRING key), some value) =>
    (valueExtractor value).map fun v => { key := key.s, value := v }
  | _ => none

def processIntEntry : Option EVALUATED × Option EVALUATED → Option DataEntry :=
  processDataEntryPartially fun
    | .CONST_LONG v => some (.Integer v)
    | _ => none

def processBoolEntry : Option EVALUATED × Option EVALUATED → Option DataEntry :=
  processDataEntryPartially fun
    | .CONST_BOOLEAN v => some (.Boolean v)
    | _ => none

def processBinaryEntry : Option EVALUATED × Option EVALUATED → Option DataEntry :=
  processDataEntryPartially fun
    | .CONST_BYTESTR v => some (.Binary v.bs)
    | _ => none

def processStringEntry : Option EVALUATED × Option EVALUATED → Option DataEntry :=
  processDataEntryPartially fun
    | .CONST_STRING v => some (.String v.s)
    | _ => none

def processDataEntryV3 (fields : Fields) : Decoded DataEntry :=
  let entry := (EVALUATED.field fields FieldNames.Key, EVALUATED.field fields FieldNames.Value)
  match (processIntEntry entry).orElse fun _ => (processBoolEntry entry).orElse fun _ =>
      (processBinaryEntry entry).orElse fun _ => processStringEntry entry with
  | some d => .right d
  | none => err (.dataEntry FieldNames.DataEntry fields) .V3

def processDataEntryV4 (fields : Fields) (dataType : String)
    (entryHandler : Option EVALUATED × Option EVALUATED → Option DataEntry) :
    Decoded CallableAction :=
  match entryHandler
      (EVALUATED.field fields FieldNames.Key, EVALUATED.field fields FieldNames.Value) with
  | some d => .right (.dataItem d)
  | none => err (.dataEntry dataType fields) .V4

/-- The asset of a transfer: an object without fields stands for none, whatever its type. -/
def processToken (maybeToken : EVALUATED) (version : StdLibVersion) : Decoded (Option ByteStr) :=
  match maybeToken with
  | .CONST_BYTESTR tokenId => .right (some tokenId.bs)
  | .CaseObj _ [] => .right none
  | other => err (.token other) version

def processScriptTransfer (fields : Fields) (version : StdLibVersion) : Decoded AssetTransfer :=
  (get fields FieldNames.Recipient).bind fun recipient =>
    (get fields FieldNames.Amount).bind fun amount =>
      (get fields FieldNames.Asset).bind fun maybeToken =>
        let mismatch : Decoded AssetTransfer :=
          err (.tuple [some recipient, some amount, some maybeToken]) version
            FieldNames.ScriptTransfer
        match recipient, amount with
        | .CaseObj caseType fields2, .CONST_LONG b =>
          if caseType = "Address" then
            (processToken maybeToken version).bind fun token =>
              (get fields2 "bytes").bind fun
                | .CONST_BYTESTR addBytes => .right ⟨addBytes.bs, b, token⟩
                | other => err (.address other) version
          else mismatch
        | _, _ => mismatch

/-- `case CaseObj(tpe, fields) if tpe.name == name => handler(fields)`, and an error else. -/
def ofCase {α : Type} (name expected : String) (handler : Fields → Decoded α) :
    EVALUATED → Decoded α
  | .CaseObj tpe fields =>
    if tpe = name then handler fields else err (.value (.CaseObj tpe fields)) .V3 expected
  | other => err (.value other) .V3 expected

/-- `case ARR(xs) => xs.toList.traverse(item)`, and an error else. -/
def ofArr {α : Type} (expected : String) (item : EVALUATED → Decoded α) :
    EVALUATED → Decoded (List α)
  | .ARR xs => Result.traverse item xs
  | other => err (.value other) .V3 expected

def processWriteSetV3 (fields : Fields) : Decoded (List DataEntry) :=
  (get fields FieldNames.Data).bind
    (ofArr s!"List({FieldNames.Data})"
      (ofCase FieldNames.DataEntry FieldNames.DataEntry processDataEntryV3))

def processTransferSetV3 (fields : Fields) : Decoded (List AssetTransfer) :=
  (get fields FieldNames.Transfers).bind
    (ofArr s!"List({FieldNames.Transfers})"
      (ofCase FieldNames.ScriptTransfer FieldNames.TransferSet (processScriptTransfer · .V3)))

def processScriptResultV3 (fields : Fields) : Decoded ScriptResult :=
  let writes := (get fields FieldNames.ScriptWriteSet).bind
    (ofCase FieldNames.WriteSet FieldNames.Data processWriteSetV3)
  let payments := (get fields FieldNames.ScriptTransferSet).bind
    (ofCase FieldNames.TransferSet FieldNames.Transfers processTransferSetV3)
  -- both are computed: what the second throws is thrown even when the first is an error
  (writes.both payments).map fun p => .V3 p.1 p.2

def processIssue (_ : Fields) : Decoded CallableAction := .thrown .NotImplementedError

def processReissue (fields : Fields) : Decoded CallableAction :=
  match EVALUATED.field fields FieldNames.ReissueAssetId,
    EVALUATED.field fields FieldNames.ReissueQuantity,
    EVALUATED.field fields FieldNames.ReissueIsReissuable with
  | some (.CONST_BYTESTR assetId), some (.CONST_LONG quantity),
    some (.CONST_BOOLEAN isReissuable) =>
    .right (.reissue ⟨assetId.bs, isReissuable, quantity⟩)
  | assetId, quantity, isReissuable =>
    err (.tuple [assetId, quantity, isReissuable]) .V4 FieldNames.Reissue

def processBurn (fields : Fields) : Decoded CallableAction :=
  match EVALUATED.field fields FieldNames.BurnAssetId,
    EVALUATED.field fields FieldNames.BurnQuantity with
  | some (.CONST_BYTESTR assetId), some (.CONST_LONG quantity) =>
    .right (.burn ⟨assetId.bs, quantity⟩)
  | assetId, quantity => err (.tuple [assetId, quantity]) .V4 FieldNames.Burn

def v4ActionHandlers : List (String × (Fields → Decoded CallableAction)) :=
  [(FieldNames.ScriptTransfer, fun fields => (processScriptTransfer fields .V4).map .transfer),
    (FieldNames.IntEntry, (processDataEntryV4 · FieldNames.IntEntry processIntEntry)),
    (FieldNames.BooleanEntry, (processDataEntryV4 · FieldNames.BooleanEntry processBoolEntry)),
    (FieldNames.StringEntry, (processDataEntryV4 · FieldNames.StringEntry processStringEntry)),
    (FieldNames.BinaryEntry, (processDataEntryV4 · FieldNames.BinaryEntry processBinaryEntry)),
    (FieldNames.Issue, processIssue),
    (FieldNames.Reissue, processReissue),
    (FieldNames.Burn, processBurn)]

def processActionV4 : EVALUATED → Decoded CallableAction
  | .CaseObj actionType fields =>
    match v4ActionHandlers.lookup actionType with
    | some handler => handler fields
    | none => err (.value (.CaseObj actionType fields)) .V4
  | other => err (.value other) .V4

def processScriptResultV4 (actions : List EVALUATED) : Decoded ScriptResult :=
  (Result.traverse processActionV4 actions).map .V4

def fromObj (e : EVALUATED) (version : StdLibVersion) : Decoded ScriptResult :=
  match e, version with
  | .CaseObj tpe fields, .V3 =>
    if tpe = FieldNames.WriteSet then (processWriteSetV3 fields).map fun ds => .V3 ds []
    else if tpe = FieldNames.TransferSet then (processTransferSetV3 fields).map fun ts => .V3 [] ts
    else if tpe = FieldNames.ScriptResult then processScriptResultV3 fields
    else err (.name tpe) version
  | .ARR actions, .V4 => processScriptResultV4 actions
  | e, version => err (.arguments e version) version

/-! ## 3. What each part takes and refuses -/

/-- An object of the name. -/
def Obj (name : String) (P : Fields → Prop) (v : EVALUATED) : Prop :=
  ∃ fields, v = .CaseObj name fields ∧ P fields

/-- The field is there. -/
def InField (key : String) (P : EVALUATED → Prop) (fields : Fields) : Prop :=
  ∃ v, EVALUATED.field fields key = some v ∧ P v

def Arr (P : List EVALUATED → Prop) (v : EVALUATED) : Prop := ∃ xs, v = .ARR xs ∧ P xs

theorem obj_iff {name tpe : String} {P : Fields → Prop} {fields : Fields} :
    Obj name P (.CaseObj tpe fields) ↔ tpe = name ∧ P fields := by
  unfold Obj
  constructor
  · rintro ⟨fields', h, hP⟩
    cases h
    exact ⟨rfl, hP⟩
  · rintro ⟨rfl, hP⟩
    exact ⟨fields, rfl, hP⟩

theorem inField_iff {key : String} {P : EVALUATED → Prop} {fields : Fields} {v : EVALUATED}
    (hv : EVALUATED.field fields key = some v) : InField key P fields ↔ P v := by
  unfold InField
  rw [hv]
  simp

theorem err_left {α : Type} (actual : Actual) (version : StdLibVersion) (expected : String) :
    ∃ e, (err actual version expected : Decoded α) = .left e := by
  unfold err
  cases callableReturnType version with
  | ok t => exact ⟨_, rfl⟩
  | error text => exact ⟨_, rfl⟩

/-- A decoder of what is in a field throws when the field is missing. -/
theorem get_decides {α : Type} {f : EVALUATED → Decoded α} {accepts refuses : EVALUATED → Prop}
    {carries : EVALUATED → α → Prop} (d : Decides f accepts refuses carries) (key : String) :
    Decides (fun fields => (get fields key).bind f) (InField key accepts) (InField key refuses)
      (fun fields a => InField key (carries · a) fields) where
  right := by
    rintro fields ⟨v, hv, ha⟩
    obtain ⟨b, hb, hcarries⟩ := d.right v ha
    refine ⟨b, ?_, v, hv, hcarries⟩
    rw [get, hv]
    exact hb
  left := by
    rintro fields ⟨v, hv, hr⟩
    obtain ⟨e, he⟩ := d.left v hr
    refine ⟨e, ?_⟩
    rw [get, hv]
    exact he
  thrown := by
    intro fields ha hr
    rw [get]
    cases hv : EVALUATED.field fields key with
    | none => exact ⟨_, rfl⟩
    | some v => exact d.thrown v (fun h => ha ⟨v, hv, h⟩) fun h => hr ⟨v, hv, h⟩

theorem ofCase_decides {α : Type} {f : Fields → Decoded α} {accepts refuses : Fields → Prop}
    {carries : Fields → α → Prop} (d : Decides f accepts refuses carries)
    (name expected : String) :
    Decides (ofCase name expected f) (Obj name accepts)
      (fun v => ¬ Obj name (fun _ => True) v ∨ Obj name refuses v)
      (fun v a => Obj name (carries · a) v) where
  right := by
    rintro v ⟨fields, rfl, ha⟩
    obtain ⟨b, hb, hcarries⟩ := d.right fields ha
    refine ⟨b, ?_, fields, rfl, hcarries⟩
    rw [ofCase, if_pos rfl, hb]
  left := by
    rintro v (hv | ⟨fields, rfl, hr⟩)
    · unfold ofCase
      split
      · rename_i tpe fields
        have hne : tpe ≠ name := fun h => hv (obj_iff.mpr ⟨h, trivial⟩)
        rw [if_neg hne]
        exact err_left _ _ _
      · exact err_left _ _ _
    · obtain ⟨e, he⟩ := d.left fields hr
      refine ⟨e, ?_⟩
      rw [ofCase, if_pos rfl, he]
  thrown := by
    intro v ha hr
    rw [not_or, not_not] at hr
    obtain ⟨⟨fields, rfl, -⟩, hr⟩ := hr
    rw [ofCase, if_pos rfl]
    exact d.thrown fields (fun h => ha ⟨fields, rfl, h⟩) fun h => hr ⟨fields, rfl, h⟩

theorem ofArr_decides {α : Type} {f : EVALUATED → Decoded α} {accepts refuses : EVALUATED → Prop}
    {carries : EVALUATED → α → Prop} (d : Decides f accepts refuses carries) (expected : String) :
    Decides (ofArr expected f) (Arr fun xs => ∀ x ∈ xs, accepts x)
      (fun v => ¬ Arr (fun _ => True) v ∨ Arr (FirstRefused accepts refuses) v)
      (fun v as => Arr (List.Forall₂ carries · as) v) where
  right := by
    rintro v ⟨xs, rfl, ha⟩
    obtain ⟨bs, hbs, hcarries⟩ := d.traverse.right xs ha
    exact ⟨bs, hbs, xs, rfl, hcarries⟩
  left := by
    rintro v (hv | ⟨xs, rfl, hr⟩)
    · unfold ofArr
      split
      · exact absurd ⟨_, rfl, trivial⟩ hv
      · exact err_left _ _ _
    · exact d.traverse.left xs hr
  thrown := by
    intro v ha hr
    rw [not_or, not_not] at hr
    obtain ⟨⟨xs, rfl, -⟩, hr⟩ := hr
    exact d.traverse.thrown xs (fun h => ha ⟨xs, rfl, h⟩) fun h => hr ⟨xs, rfl, h⟩

/-- A field of a type. -/
abbrev Has (key : String) (t : FINAL) : Fields → Prop := InField key fun v => t.holds v = true

/-- The value of an entry. -/
def valueOf : EVALUATED → Option DataEntryValue
  | .CONST_LONG v => some (.Integer v)
  | .CONST_BOOLEAN v => some (.Boolean v)
  | .CONST_BYTESTR v => some (.Binary v.bs)
  | .CONST_STRING v => some (.String v.s)
  | _ => none

/-- An entry whose value is of the type. -/
def EntryOf (t : FINAL) (fields : Fields) : Prop :=
  Has FieldNames.Key WavesTypes.STRING fields ∧ Has FieldNames.Value t fields

def CarriesEntry (fields : Fields) (d : DataEntry) : Prop :=
  InField FieldNames.Key (fun v => ∃ s, v = .CONST_STRING s ∧ d.key = s.s) fields ∧
    InField FieldNames.Value (fun v => valueOf v = some d.value) fields

theorem entry_decides {ex : EVALUATED → Option DataEntryValue} {t : FINAL}
    (hex : ∀ v, ex v = if t.holds v then valueOf v else none)
    (ht : ∀ v, t.holds v = true → ∃ x, valueOf v = some x) (actual : Fields → Actual)
    (version : StdLibVersion) :
    Decides (fun fields : Fields =>
      match processDataEntryPartially ex
        (EVALUATED.field fields FieldNames.Key, EVALUATED.field fields FieldNames.Value) with
      | some d => Result.right d
      | none => err (actual fields) version) (EntryOf t) (fun fields => ¬ EntryOf t fields)
      CarriesEntry where
  right := by
    rintro fields ⟨⟨k, hk, hks⟩, v, hv, hvt⟩
    obtain ⟨s, rfl⟩ := holds_STRING_iff.mp hks
    obtain ⟨x, hx⟩ := ht v hvt
    refine ⟨{ key := s.s, value := x }, ?_, ⟨_, hk, s, rfl, rfl⟩, v, hv, hx⟩
    simp only [hk, hv, processDataEntryPartially]
    rw [hex, if_pos hvt, hx]
    rfl
  left := by
    intro fields hn
    have hnone : processDataEntryPartially ex (EVALUATED.field fields FieldNames.Key,
        EVALUATED.field fields FieldNames.Value) = none := by
      unfold processDataEntryPartially
      split
      · rename_i key value heq
        rw [Prod.mk.injEq] at heq
        have hvt : ¬ t.holds value = true := fun h =>
          hn ⟨⟨_, heq.1, holds_STRING_iff.mpr ⟨key, rfl⟩⟩, value, heq.2, h⟩
        rw [hex, if_neg hvt]
        rfl
      · rfl
    simp only [hnone]
    exact err_left _ _ _
  thrown := fun fields ha hr => absurd ha hr

/-- The four readers of the older entries are one. -/
theorem orElse_eq (entry : Option EVALUATED × Option EVALUATED) :
    ((processIntEntry entry).orElse fun _ => (processBoolEntry entry).orElse fun _ =>
      (processBinaryEntry entry).orElse fun _ => processStringEntry entry) =
      processDataEntryPartially valueOf entry := by
  unfold processIntEntry processBoolEntry processBinaryEntry processStringEntry
    processDataEntryPartially
  split
  · rename_i key value
    cases value <;> rfl
  · rfl

theorem holds_dataEntryValueType (v : EVALUATED) :
    WavesTypes.dataEntryValueType.holds v = (valueOf v).isSome := by
  rw [Bool.eq_iff_iff, WavesTypes.dataEntryValueType, WavesTypes.holds_UNION_iff]
  cases v <;> simp [valueOf]

theorem processDataEntryV3_decides :
    Decides processDataEntryV3 (EntryOf WavesTypes.dataEntryValueType)
      (fun fields => ¬ EntryOf WavesTypes.dataEntryValueType fields) CarriesEntry := by
  have hex : ∀ v, valueOf v =
      if WavesTypes.dataEntryValueType.holds v then valueOf v else none := by
    intro v
    rw [holds_dataEntryValueType]
    cases valueOf v <;> rfl
  have ht : ∀ v, WavesTypes.dataEntryValueType.holds v = true → ∃ x, valueOf v = some x := by
    intro v hv
    rw [holds_dataEntryValueType, Option.isSome_iff_exists] at hv
    exact hv
  have d := entry_decides hex ht (.dataEntry FieldNames.DataEntry) .V3
  simp only [← orElse_eq] at d
  exact d

/-- The name of the entries that hold such a value. -/
def entryName : DataEntryValue → String
  | .Integer _ => FieldNames.IntEntry
  | .Boolean _ => FieldNames.BooleanEntry
  | .Binary _ => FieldNames.BinaryEntry
  | .String _ => FieldNames.StringEntry

theorem processDataEntryV4_decides {ex : EVALUATED → Option DataEntryValue} {t : FINAL}
    {dataType : String} (hex : ∀ v, ex v = if t.holds v then valueOf v else none)
    (ht : ∀ v, t.holds v = true → ∃ x, valueOf v = some x ∧ entryName x = dataType) :
    Decides (processDataEntryV4 · dataType (processDataEntryPartially ex)) (EntryOf t)
      (fun fields => ¬ EntryOf t fields)
      (fun fields a => ∃ d, a = CallableAction.dataItem d ∧ entryName d.value = dataType ∧
        CarriesEntry fields d) := by
  have ht' : ∀ v, t.holds v = true → ∃ x, valueOf v = some x := by
    intro v hv
    obtain ⟨x, hx, -⟩ := ht v hv
    exact ⟨x, hx⟩
  have hcarries : ∀ fields e, EntryOf t fields → CarriesEntry fields e →
      ∃ d, CallableAction.dataItem e = .dataItem d ∧ entryName d.value = dataType ∧
        CarriesEntry fields d := by
    rintro fields e ⟨-, v, hv, hvt⟩ he
    refine ⟨e, rfl, ?_, he⟩
    obtain ⟨x, hx, hname⟩ := ht v hvt
    have hvalue : valueOf v = some e.value := (inField_iff hv).mp he.2
    rw [hx, Option.some.injEq] at hvalue
    rw [← hvalue, hname]
  have d : Decides _ (EntryOf t) (fun fields => ¬ EntryOf t fields)
      (fun fields a => ∃ d, a = CallableAction.dataItem d ∧ entryName d.value = dataType ∧
        CarriesEntry fields d) :=
    (entry_decides hex ht' (.dataEntry dataType) .V4).map CallableAction.dataItem hcarries
  refine cast ?_ d
  congr 1
  funext fields
  unfold processDataEntryV4
  split <;> rfl

/-! The asset of a transfer is taken by its shape. -/

def IsToken : EVALUATED → Prop
  | .CONST_BYTESTR _ => True
  | .CaseObj _ fields => fields = []
  | _ => False

def CarriesToken : EVALUATED → Option ByteStr → Prop
  | .CONST_BYTESTR id, token => token = some id.bs
  | _, token => token = none

theorem processToken_decides (version : StdLibVersion) :
    Decides (processToken · version) IsToken (fun v => ¬ IsToken v) CarriesToken where
  right := by
    intro v hv
    cases v with
    | CONST_BYTESTR id => exact ⟨_, rfl, rfl⟩
    | CaseObj tpe fields =>
      rw [IsToken] at hv
      subst hv
      exact ⟨none, rfl, rfl⟩
    | CONST_LONG t => exact hv.elim
    | CONST_STRING s => exact hv.elim
    | CONST_BOOLEAN b => exact hv.elim
    | ARR xs => exact hv.elim
  left := by
    intro v hv
    unfold processToken
    split
    · exact absurd trivial hv
    · exact absurd rfl hv
    · exact err_left _ _ _
  thrown := fun v ha hr => absurd ha hr

/-- A transfer whose recipient is an address. -/
def TransferTaken (fields : Fields) : Prop :=
  InField FieldNames.Recipient (Obj "Address" (Has "bytes" WavesTypes.BYTESTR)) fields ∧
    Has FieldNames.Amount WavesTypes.LONG fields ∧ InField FieldNames.Asset IsToken fields

/-- The three fields are there, and one of them does not match. -/
def TransferRefused (fields : Fields) : Prop :=
  (InField FieldNames.Recipient (fun _ => True) fields ∧
    InField FieldNames.Amount (fun _ => True) fields ∧
    InField FieldNames.Asset (fun _ => True) fields) ∧
  (¬ InField FieldNames.Recipient (Obj "Address" fun _ => True) fields ∨
    ¬ Has FieldNames.Amount WavesTypes.LONG fields ∨
    ¬ InField FieldNames.Asset IsToken fields ∨
    InField FieldNames.Recipient
      (Obj "Address" (InField "bytes" fun v => ¬ WavesTypes.BYTESTR.holds v = true)) fields)

def CarriesTransfer (fields : Fields) (t : AssetTransfer) : Prop :=
  InField FieldNames.Recipient
    (Obj "Address" (InField "bytes" fun v => ∃ bs, v = .CONST_BYTESTR bs ∧ t.recipient = bs.bs))
    fields ∧
  InField FieldNames.Amount (fun v => v = .CONST_LONG t.amount) fields ∧
    InField FieldNames.Asset (fun v => CarriesToken v t.assetId) fields

/-- The recipient, once the amount and the asset have been looked at. -/
theorem bytes_decides (b : Long) (token : Option ByteStr) (version : StdLibVersion) :
    Decides (fun fields2 => (get fields2 "bytes").bind fun
        | .CONST_BYTESTR addBytes => .right (⟨addBytes.bs, b, token⟩ : AssetTransfer)
        | other => err (.address other) version)
      (Has "bytes" WavesTypes.BYTESTR)
      (InField "bytes" fun v => ¬ WavesTypes.BYTESTR.holds v = true)
      (fun fields2 t => InField "bytes"
        (fun v => ∃ bs, v = .CONST_BYTESTR bs ∧ t = ⟨bs.bs, b, token⟩) fields2) := by
  refine get_decides ⟨?_, ?_, ?_⟩ "bytes"
  · intro v hv
    obtain ⟨bs, rfl⟩ := holds_BYTESTR_iff.mp hv
    exact ⟨_, rfl, bs, rfl, rfl⟩
  · intro v hv
    split
    · exact absurd (holds_BYTESTR_iff.mpr ⟨_, rfl⟩) hv
    · exact err_left _ _ _
  · intro v ha hr
    exact absurd ha hr

theorem processScriptTransfer_decides (version : StdLibVersion) :
    Decides (processScriptTransfer · version) TransferTaken TransferRefused CarriesTransfer where
  right := by
    rintro fields ⟨⟨r, hr, fields2, rfl, hbytes⟩, ⟨a, ha, hlong⟩, asset, hasset, htoken⟩
    obtain ⟨b, rfl⟩ := holds_LONG_iff.mp hlong
    obtain ⟨token, htok, hcarries⟩ := (processToken_decides version).right asset htoken
    obtain ⟨t, ht, v, hv, bs, rfl, rfl⟩ := (bytes_decides b token version).right fields2 hbytes
    refine ⟨⟨bs.bs, b, token⟩, ?_, ⟨_, hr, fields2, rfl, _, hv, bs, rfl, rfl⟩, ⟨_, ha, rfl⟩,
      asset, hasset, hcarries⟩
    simp only [processScriptTransfer, get, hr, ha, hasset, Result.bind, if_true]
    rw [htok]
    exact ht
  left := by
    rintro fields ⟨⟨⟨r, hr, -⟩, ⟨a, ha, -⟩, asset, hasset, -⟩, hbad⟩
    simp only [inField_iff hr, inField_iff ha, inField_iff hasset] at hbad
    simp only [processScriptTransfer, get, hr, ha, hasset, Result.bind]
    split
    · rename_i tpe fields2 b
      by_cases hname : tpe = "Address"
      · rw [if_pos hname]
        subst hname
        by_cases htoken : IsToken asset
        · obtain ⟨token, htok, -⟩ := (processToken_decides version).right asset htoken
          rw [htok]
          refine (bytes_decides b token version).left fields2 ?_
          rcases hbad with h | h | h | h
          · exact absurd (obj_iff.mpr ⟨rfl, trivial⟩) h
          · exact absurd (holds_LONG_iff.mpr ⟨b, rfl⟩) h
          · exact absurd htoken h
          · exact (obj_iff.mp h).2
        · obtain ⟨e, he⟩ := (processToken_decides version).left asset htoken
          rw [he]
          exact ⟨e, rfl⟩
      · rw [if_neg hname]
        exact err_left _ _ _
    · exact err_left _ _ _
  thrown := by
    intro fields htaken hrefused
    cases hr : EVALUATED.field fields FieldNames.Recipient with
    | none => exact ⟨_, by simp only [processScriptTransfer, get, hr, Result.bind]; rfl⟩
    | some r =>
      cases ha : EVALUATED.field fields FieldNames.Amount with
      | none => exact ⟨_, by simp only [processScriptTransfer, get, hr, ha, Result.bind]; rfl⟩
      | some a =>
        cases hasset : EVALUATED.field fields FieldNames.Asset with
        | none =>
          exact ⟨_, by simp only [processScriptTransfer, get, hr, ha, hasset, Result.bind]; rfl⟩
        | some asset =>
          -- the three are there and match, so what is missing is the bytes of the address
          simp only [TransferTaken, TransferRefused, inField_iff hr, inField_iff ha,
            inField_iff hasset, true_and, and_true, not_or, not_not] at htaken hrefused
          obtain ⟨⟨fields2, rfl, -⟩, hlong, htoken, hbytes⟩ := hrefused
          obtain ⟨b, rfl⟩ := holds_LONG_iff.mp hlong
          obtain ⟨token, htok, -⟩ := (processToken_decides version).right asset htoken
          simp only [processScriptTransfer, get, hr, ha, hasset, Result.bind, if_true]
          rw [htok]
          refine (bytes_decides b token version).thrown fields2 (fun h => ?_) fun h => ?_
          · exact htaken ⟨obj_iff.mpr ⟨rfl, h⟩, hlong, htoken⟩
          · exact hbytes (obj_iff.mpr ⟨rfl, h⟩)

/-! ## 4. Sets, actions and whole results -/

def WriteSetTaken : Fields → Prop :=
  InField FieldNames.Data (Arr fun xs =>
    ∀ x ∈ xs, Obj FieldNames.DataEntry (EntryOf WavesTypes.dataEntryValueType) x)

/-- What is under `data` is no list, or the first of its values that is no entry is met. -/
def WriteSetRefused : Fields → Prop :=
  InField FieldNames.Data fun v => ¬ Arr (fun _ => True) v ∨
    Arr (FirstRefused (Obj FieldNames.DataEntry (EntryOf WavesTypes.dataEntryValueType))
      fun x => ¬ Obj FieldNames.DataEntry (fun _ => True) x ∨
        Obj FieldNames.DataEntry (¬ EntryOf WavesTypes.dataEntryValueType ·) x) v

def CarriesWrites (fields : Fields) (ds : List DataEntry) : Prop :=
  InField FieldNames.Data (Arr (List.Forall₂
    (fun x d => Obj FieldNames.DataEntry (CarriesEntry · d) x) · ds)) fields

theorem processWriteSetV3_decides :
    Decides processWriteSetV3 WriteSetTaken WriteSetRefused CarriesWrites :=
  get_decides (ofArr_decides (ofCase_decides processDataEntryV3_decides _ _) _) _

def TransferSetTaken : Fields → Prop :=
  InField FieldNames.Transfers (Arr fun xs =>
    ∀ x ∈ xs, Obj FieldNames.ScriptTransfer TransferTaken x)

/-- What is under `transfers` is no list, or its first value that is not taken is refused. -/
def TransferSetRefused : Fields → Prop :=
  InField FieldNames.Transfers fun v => ¬ Arr (fun _ => True) v ∨
    Arr (FirstRefused (Obj FieldNames.ScriptTransfer TransferTaken)
      fun x => ¬ Obj FieldNames.ScriptTransfer (fun _ => True) x ∨
        Obj FieldNames.ScriptTransfer TransferRefused x) v

def CarriesTransfers (fields : Fields) (ts : List AssetTransfer) : Prop :=
  InField FieldNames.Transfers (Arr (List.Forall₂
    (fun x t => Obj FieldNames.ScriptTransfer (CarriesTransfer · t) x) · ts)) fields

theorem processTransferSetV3_decides :
    Decides processTransferSetV3 TransferSetTaken TransferSetRefused CarriesTransfers :=
  get_decides (ofArr_decides (ofCase_decides (processScriptTransfer_decides .V3) _ _) _) _

/-! The actions of the last version, by their names. -/

def ReissueTaken (fields : Fields) : Prop :=
  Has FieldNames.ReissueAssetId WavesTypes.BYTESTR fields ∧
    Has FieldNames.ReissueQuantity WavesTypes.LONG fields ∧
    Has FieldNames.ReissueIsReissuable WavesTypes.BOOLEAN fields

def BurnTaken (fields : Fields) : Prop :=
  Has FieldNames.BurnAssetId WavesTypes.BYTESTR fields ∧
    Has FieldNames.BurnQuantity WavesTypes.LONG fields

def ActionTaken (name : String) : Fields → Prop :=
  if name = FieldNames.ScriptTransfer then TransferTaken
  else if name = FieldNames.IntEntry then EntryOf WavesTypes.LONG
  else if name = FieldNames.BooleanEntry then EntryOf WavesTypes.BOOLEAN
  else if name = FieldNames.StringEntry then EntryOf WavesTypes.STRING
  else if name = FieldNames.BinaryEntry then EntryOf WavesTypes.BYTESTR
  else if name = FieldNames.Reissue then ReissueTaken
  else if name = FieldNames.Burn then BurnTaken
  else fun _ => False

/-- An object that is not taken is refused, unless it is an `Issue` or a transfer that lacks
a field. -/
def ActionRefused (name : String) (fields : Fields) : Prop :=
  if name = FieldNames.ScriptTransfer then TransferRefused fields
  else name ≠ FieldNames.Issue ∧ ¬ ActionTaken name fields

def CarriesAction (name : String) (fields : Fields) : CallableAction → Prop
  | .transfer t => name = FieldNames.ScriptTransfer ∧ CarriesTransfer fields t
  | .dataItem d => name = entryName d.value ∧ CarriesEntry fields d
  | .issue => False
  | .reissue r => name = FieldNames.Reissue ∧
    InField FieldNames.ReissueAssetId
      (fun v => ∃ id, v = .CONST_BYTESTR id ∧ r.assetId = id.bs) fields ∧
    InField FieldNames.ReissueQuantity (fun v => v = .CONST_LONG r.quantity) fields ∧
    InField FieldNames.ReissueIsReissuable (fun v => v = .CONST_BOOLEAN r.isReissuable) fields
  | .burn b => name = FieldNames.Burn ∧
    InField FieldNames.BurnAssetId
      (fun v => ∃ id, v = .CONST_BYTESTR id ∧ b.assetId = id.bs) fields ∧
    InField FieldNames.BurnQuantity (fun v => v = .CONST_LONG b.quantity) fields

theorem processReissue_decides :
    Decides processReissue ReissueTaken (fun fields => ¬ ReissueTaken fields)
      (CarriesAction FieldNames.Reissue) where
  right := by
    rintro fields ⟨⟨i, hi, hid⟩, ⟨q, hq, hquantity⟩, r, hr, hreissuable⟩
    obtain ⟨id, rfl⟩ := holds_BYTESTR_iff.mp hid
    obtain ⟨quantity, rfl⟩ := holds_LONG_iff.mp hquantity
    obtain ⟨isReissuable, rfl⟩ := holds_BOOLEAN_iff.mp hreissuable
    refine ⟨.reissue ⟨id.bs, isReissuable, quantity⟩, ?_, rfl, ⟨_, hi, id, rfl, rfl⟩,
      ⟨_, hq, rfl⟩, ⟨_, hr, rfl⟩⟩
    simp only [processReissue, hi, hq, hr]
  left := by
    intro fields hn
    unfold processReissue
    split
    · rename_i id quantity isReissuable hi hq hr
      exact absurd ⟨⟨_, hi, holds_BYTESTR_iff.mpr ⟨_, rfl⟩⟩, ⟨_, hq, holds_LONG_iff.mpr ⟨_, rfl⟩⟩,
        ⟨_, hr, holds_BOOLEAN_iff.mpr ⟨_, rfl⟩⟩⟩ hn
    · exact err_left _ _ _
  thrown := fun fields ha hr => absurd ha hr

theorem processBurn_decides :
    Decides processBurn BurnTaken (fun fields => ¬ BurnTaken fields)
      (CarriesAction FieldNames.Burn) where
  right := by
    rintro fields ⟨⟨i, hi, hid⟩, q, hq, hquantity⟩
    obtain ⟨id, rfl⟩ := holds_BYTESTR_iff.mp hid
    obtain ⟨quantity, rfl⟩ := holds_LONG_iff.mp hquantity
    refine ⟨.burn ⟨id.bs, quantity⟩, ?_, rfl, ⟨_, hi, id, rfl, rfl⟩, ⟨_, hq, rfl⟩⟩
    simp only [processBurn, hi, hq]
  left := by
    intro fields hn
    unfold processBurn
    split
    · rename_i id quantity hi hq
      exact absurd ⟨⟨_, hi, holds_BYTESTR_iff.mpr ⟨_, rfl⟩⟩,
        ⟨_, hq, holds_LONG_iff.mpr ⟨_, rfl⟩⟩⟩ hn
    · exact err_left _ _ _
  thrown := fun fields ha hr => absurd ha hr

/-- Of the names but two, what is not taken is refused. -/
theorem actionRefused_eq {name : String} {taken : Fields → Prop}
    (htransfer : name ≠ FieldNames.ScriptTransfer) (hissue : name ≠ FieldNames.Issue)
    (htaken : ActionTaken name = taken) :
    ActionRefused name = fun fields => ¬ taken fields := by
  funext fields
  rw [ActionRefused, if_neg htransfer, htaken, eq_iff_iff, and_iff_right hissue]

theorem entryHandler_decides {ex : EVALUATED → Option DataEntryValue} {t : FINAL} {name : String}
    (htransfer : name ≠ FieldNames.ScriptTransfer) (hissue : name ≠ FieldNames.Issue)
    (htaken : ActionTaken name = EntryOf t)
    (hex : ∀ v, ex v = if t.holds v then valueOf v else none)
    (ht : ∀ v, t.holds v = true → ∃ x, valueOf v = some x ∧ entryName x = name) :
    Decides (processDataEntryV4 · name (processDataEntryPartially ex)) (ActionTaken name)
      (ActionRefused name) (CarriesAction name) := by
  have d := processDataEntryV4_decides hex ht
  rw [htaken, actionRefused_eq htransfer hissue htaken]
  refine ⟨?_, d.left, d.thrown⟩
  intro fields hfields
  obtain ⟨a, ha, e, rfl, hname, hcarries⟩ := d.right fields hfields
  exact ⟨_, ha, hname.symm, hcarries⟩

/-- Each handler does what is said of its name. -/
theorem handler_decides : ∀ p ∈ v4ActionHandlers,
    Decides p.2 (ActionTaken p.1) (ActionRefused p.1) (CarriesAction p.1) := by
  simp only [v4ActionHandlers, List.forall_mem_cons]
  refine ⟨?_, ?_, ?_, ?_, ?_, ?_, ?_, ?_, by simp⟩
  · have hcarries : ∀ fields t, TransferTaken fields → CarriesTransfer fields t →
        CarriesAction FieldNames.ScriptTransfer fields (.transfer t) := fun _ _ _ ht => ⟨rfl, ht⟩
    exact (processScriptTransfer_decides .V4).map CallableAction.transfer hcarries
  · refine entryHandler_decides (by decide) (by decide) rfl (fun v => by cases v <;> rfl) ?_
    intro v hv
    obtain ⟨t, rfl⟩ := holds_LONG_iff.mp hv
    exact ⟨_, rfl, rfl⟩
  · refine entryHandler_decides (by decide) (by decide) rfl (fun v => by cases v <;> rfl) ?_
    intro v hv
    obtain ⟨b, rfl⟩ := holds_BOOLEAN_iff.mp hv
    exact ⟨_, rfl, rfl⟩
  · refine entryHandler_decides (by decide) (by decide) rfl (fun v => by cases v <;> rfl) ?_
    intro v hv
    obtain ⟨s, rfl⟩ := holds_STRING_iff.mp hv
    exact ⟨_, rfl, rfl⟩
  · refine entryHandler_decides (by decide) (by decide) rfl (fun v => by cases v <;> rfl) ?_
    intro v hv
    obtain ⟨bs, rfl⟩ := holds_BYTESTR_iff.mp hv
    exact ⟨_, rfl, rfl⟩
  · -- no issue is taken, and none is refused
    exact ⟨fun _ h => h.elim, fun _ h => absurd rfl h.1, fun _ _ _ => ⟨_, rfl⟩⟩
  · rw [actionRefused_eq (by decide) (by decide) rfl]
    exact processReissue_decides
  · rw [actionRefused_eq (by decide) (by decide) rfl]
    exact processBurn_decides

theorem handler_of_lookup {name : String} {handler : Fields → Decoded CallableAction}
    (h : v4ActionHandlers.lookup name = some handler) :
    Decides handler (ActionTaken name) (ActionRefused name) (CarriesAction name) := by
  obtain ⟨before, after, heq, -⟩ := List.lookup_eq_some_iff.mp h
  exact handler_decides (name, handler) (by rw [heq]; simp)

/-- An object of no known name is refused. -/
theorem refused_of_lookup {name : String} (h : v4ActionHandlers.lookup name = none)
    (fields : Fields) : ¬ ActionTaken name fields ∧ ActionRefused name fields := by
  have hne : ∀ p ∈ v4ActionHandlers, name ≠ p.1 := by
    intro p hp
    exact bne_iff_ne.mp (List.lookup_eq_none_iff.mp h p hp)
  simp only [v4ActionHandlers, List.forall_mem_cons] at hne
  obtain ⟨htransfer, hint, hbool, hstring, hbinary, hissue, hreissue, hburn, -⟩ := hne
  have htaken : ¬ ActionTaken name fields := by
    rw [ActionTaken, if_neg htransfer, if_neg hint, if_neg hbool, if_neg hstring,
      if_neg hbinary, if_neg hreissue, if_neg hburn]
    exact not_false
  refine ⟨htaken, ?_⟩
  rw [ActionRefused, if_neg htransfer]
  exact ⟨hissue, htaken⟩

/-- The value is an object, and what is said of its name and fields holds. -/
def Object (P : String → Fields → Prop) (v : EVALUATED) : Prop :=
  ∃ name fields, v = .CaseObj name fields ∧ P name fields

theorem object_iff {P : String → Fields → Prop} {name : String} {fields : Fields} :
    Object P (.CaseObj name fields) ↔ P name fields := by
  unfold Object
  constructor
  · rintro ⟨name', fields', h, hP⟩
    cases h
    exact hP
  · intro hP
    exact ⟨name, fields, rfl, hP⟩

theorem processActionV4_decides :
    Decides processActionV4 (Object ActionTaken)
      (fun v => ¬ Object (fun _ _ => True) v ∨ Object ActionRefused v)
      (fun v a => Object (CarriesAction · · a) v) where
  right := by
    rintro v ⟨name, fields, rfl, ha⟩
    cases hlookup : v4ActionHandlers.lookup name with
    | some handler =>
      obtain ⟨a, hr, hcarries⟩ := (handler_of_lookup hlookup).right fields ha
      refine ⟨a, ?_, name, fields, rfl, hcarries⟩
      simp only [processActionV4, hlookup, hr]
    | none => exact absurd ha (refused_of_lookup hlookup fields).1
  left := by
    rintro v (hv | ⟨name, fields, rfl, hr⟩)
    · unfold processActionV4
      split
      · exact absurd ⟨_, _, rfl, trivial⟩ hv
      · exact err_left _ _ _
    · cases hlookup : v4ActionHandlers.lookup name with
      | some handler =>
        obtain ⟨e, he⟩ := (handler_of_lookup hlookup).left fields hr
        refine ⟨e, ?_⟩
        simp only [processActionV4, hlookup, he]
      | none =>
        simp only [processActionV4, hlookup]
        exact err_left _ _ _
  thrown := by
    intro v ha hr
    rw [not_or, not_not] at hr
    obtain ⟨⟨name, fields, rfl, -⟩, hr⟩ := hr
    rw [object_iff] at ha hr
    cases hlookup : v4ActionHandlers.lookup name with
    | some handler =>
      obtain ⟨t, ht⟩ := (handler_of_lookup hlookup).thrown fields ha hr
      refine ⟨t, ?_⟩
      simp only [processActionV4, hlookup, ht]
    | none => exact absurd (refused_of_lookup hlookup fields).2 hr

/-! Whole results. -/

def ScriptResultTaken (fields : Fields) : Prop :=
  InField FieldNames.ScriptWriteSet (Obj FieldNames.WriteSet WriteSetTaken) fields ∧
    InField FieldNames.ScriptTransferSet (Obj FieldNames.TransferSet TransferSetTaken) fields

/-- A write set, or something else, that is refused. -/
def WritesRefused : Fields → Prop :=
  InField FieldNames.ScriptWriteSet fun v =>
    ¬ Obj FieldNames.WriteSet (fun _ => True) v ∨ Obj FieldNames.WriteSet WriteSetRefused v

/-- A transfer set, or something else, that is refused. -/
def PaymentsRefused : Fields → Prop :=
  InField FieldNames.ScriptTransferSet fun v =>
    ¬ Obj FieldNames.TransferSet (fun _ => True) v ∨
      Obj FieldNames.TransferSet TransferSetRefused v

/-- One of the two is refused, and neither throws. -/
def ScriptResultRefused (fields : Fields) : Prop :=
  (WritesRefused fields ∧
    (InField FieldNames.ScriptTransferSet (Obj FieldNames.TransferSet TransferSetTaken) fields ∨
      PaymentsRefused fields)) ∨
  (InField FieldNames.ScriptWriteSet (Obj FieldNames.WriteSet WriteSetTaken) fields ∧
    PaymentsRefused fields)

def CarriesScriptResult (fields : Fields) (ds : List DataEntry) (ts : List AssetTransfer) :
    Prop :=
  InField FieldNames.ScriptWriteSet (Obj FieldNames.WriteSet (CarriesWrites · ds)) fields ∧
    InField FieldNames.ScriptTransferSet
      (Obj FieldNames.TransferSet (CarriesTransfers · ts)) fields

theorem processScriptResultV3_decides :
    Decides processScriptResultV3 ScriptResultTaken ScriptResultRefused
      (fun fields r => ∃ ds ts, r = .V3 ds ts ∧ CarriesScriptResult fields ds ts) :=
  ((get_decides (ofCase_decides processWriteSetV3_decides _ _) _).both
    (get_decides (ofCase_decides processTransferSetV3_decides _ _) _)).map _
    fun _ p _ h => ⟨p.1, p.2, rfl, h⟩

/-- What a call of the version returns when it is taken. -/
def Taken : EVALUATED → StdLibVersion → Prop
  | .CaseObj tpe fields, .V3 =>
    if tpe = FieldNames.WriteSet then WriteSetTaken fields
    else if tpe = FieldNames.TransferSet then TransferSetTaken fields
    else if tpe = FieldNames.ScriptResult then ScriptResultTaken fields
    else False
  | .ARR actions, .V4 => ∀ x ∈ actions, Object ActionTaken x
  | _, _ => False

/-- What is refused: the parts before are taken, and the part itself lacks no field that is
read as if it were there. -/
def Refused : EVALUATED → StdLibVersion → Prop
  | .CaseObj tpe fields, .V3 =>
    if tpe = FieldNames.WriteSet then WriteSetRefused fields
    else if tpe = FieldNames.TransferSet then TransferSetRefused fields
    else if tpe = FieldNames.ScriptResult then ScriptResultRefused fields
    else True
  | .ARR actions, .V4 =>
    FirstRefused (Object ActionTaken)
      (fun v => ¬ Object (fun _ _ => True) v ∨ Object ActionRefused v) actions
  | _, _ => True

/-- The result has the values of the object, in the order in which they stand in it. -/
def Carries : EVALUATED → ScriptResult → Prop
  | .CaseObj tpe fields, r =>
    if tpe = FieldNames.WriteSet then ∃ ds, r = .V3 ds [] ∧ CarriesWrites fields ds
    else if tpe = FieldNames.TransferSet then ∃ ts, r = .V3 [] ts ∧ CarriesTransfers fields ts
    else if tpe = FieldNames.ScriptResult then
      ∃ ds ts, r = .V3 ds ts ∧ CarriesScriptResult fields ds ts
    else False
  | .ARR xs, r => ∃ actions, r = .V4 actions ∧
    List.Forall₂ (fun v a => Object (CarriesAction · · a) v) xs actions
  | _, _ => False

/-- An object of the third version is read by its name. -/
theorem objectV3_decides :
    Decides (fun p : String × Fields => fromObj (.CaseObj p.1 p.2) .V3)
      (fun p => Taken (.CaseObj p.1 p.2) .V3) (fun p => Refused (.CaseObj p.1 p.2) .V3)
      (fun p r => Carries (.CaseObj p.1 p.2) r) := by
  have h : ∀ p : String × Fields, ∃ e, (err (.name p.1) .V3 : Decoded ScriptResult) = .left e :=
    fun p => err_left _ _ _
  refine Decides.ite (fun p : String × Fields => p.1 = FieldNames.WriteSet) ?_
    (Decides.ite (fun p : String × Fields => p.1 = FieldNames.TransferSet) ?_
      (Decides.ite (fun p : String × Fields => p.1 = FieldNames.ScriptResult) ?_
        (Decides.refuse h)))
  · exact (processWriteSetV3_decides.comap Prod.snd).map _ fun _ ds _ h => ⟨ds, rfl, h⟩
  · exact (processTransferSetV3_decides.comap Prod.snd).map _ fun _ ts _ h => ⟨ts, rfl, h⟩
  · exact processScriptResultV3_decides.comap Prod.snd

theorem listV4_decides :
    Decides (fun xs => fromObj (.ARR xs) .V4) (fun xs => Taken (.ARR xs) .V4)
      (fun xs => Refused (.ARR xs) .V4) (fun xs r => Carries (.ARR xs) r) :=
  processActionV4_decides.traverse.map _ fun _ actions _ h => ⟨actions, rfl, h⟩

/-- Anything else is refused. -/
theorem fromObj_left {v : EVALUATED} {version : StdLibVersion}
    (hV3 : ∀ tpe fields, v = .CaseObj tpe fields → version ≠ .V3)
    (hV4 : ∀ xs, v = .ARR xs → version ≠ .V4) : ∃ e, fromObj v version = .left e := by
  unfold fromObj
  split
  · exact absurd rfl (hV3 _ _ rfl)
  · exact absurd rfl (hV4 _ rfl)
  · exact err_left _ _ _

theorem fromObj_decides (version : StdLibVersion) :
    Decides (fromObj · version) (Taken · version) (Refused · version) Carries where
  right := by
    intro v hv
    cases v <;> cases version
    case CaseObj.V3 tpe fields => exact objectV3_decides.right (tpe, fields) hv
    case ARR.V4 xs => exact listV4_decides.right xs hv
    all_goals exact hv.elim
  left := by
    intro v hv
    cases v <;> cases version
    case CaseObj.V3 tpe fields => exact objectV3_decides.left (tpe, fields) hv
    case ARR.V4 xs => exact listV4_decides.left xs hv
    all_goals exact fromObj_left (by simp) (by simp)
  thrown := by
    intro v ha hr
    cases v <;> cases version
    case CaseObj.V3 tpe fields => exact objectV3_decides.thrown (tpe, fields) ha hr
    case ARR.V4 xs => exact listV4_decides.thrown xs ha hr
    all_goals exact absurd trivial hr

/-! ## 5. Against the declared type -/

/-- The value is of the declared return type of the version. -/
def OfReturnType (v : EVALUATED) (version : StdLibVersion) : Prop :=
  ∃ t, callableReturnType version = .ok t ∧ t.holds v = true

/-- A transfer to an alias. -/
def ToAlias : EVALUATED → Prop :=
  Obj FieldNames.ScriptTransfer (InField FieldNames.Recipient (Obj "Alias" fun _ => True))

def IsIssue : EVALUATED → Prop := Obj FieldNames.Issue fun _ => True

/-- The values of a list in a field. -/
def listAt (key : String) (fields : Fields) : List EVALUATED :=
  match EVALUATED.field fields key with
  | some (.ARR xs) => xs
  | _ => []

/-- The transfers that a result holds, and of the last version all its actions. -/
def itemsOf : EVALUATED → List EVALUATED
  | .ARR xs => xs
  | .CaseObj tpe fields =>
    if tpe = FieldNames.TransferSet then listAt FieldNames.Transfers fields
    else if tpe = FieldNames.ScriptResult then
      match EVALUATED.field fields FieldNames.ScriptTransferSet with
      | some (.CaseObj _ fields2) => listAt FieldNames.Transfers fields2
      | _ => []
    else []
  | _ => []

theorem isToken_of_holds {v : EVALUATED} (h : WavesTypes.optionByteVector.holds v = true) :
    IsToken v := by
  rw [WavesTypes.optionByteVector, WavesTypes.holds_UNION_iff] at h
  simp only [List.mem_cons, List.not_mem_nil, or_false, exists_eq_or_imp, exists_eq_left] at h
  rcases h with h | h
  · obtain ⟨bs, rfl⟩ := holds_BYTESTR_iff.mp h
    exact trivial
  · obtain ⟨values, rfl, hkeys, -⟩ := holds_CASETYPEREF_iff.mp h
    cases values with
    | nil => rfl
    | cons p rest => exact absurd (hkeys p.1 (by simp)) (by simp)

/-- A recipient is an address with its bytes, or an alias. -/
theorem recipient_of_holds {v : EVALUATED}
    (h : WavesTypes.addressOrAliasType.holds v = true) :
    Obj "Address" (Has "bytes" WavesTypes.BYTESTR) v ∨ Obj "Alias" (fun _ => True) v := by
  rw [WavesTypes.addressOrAliasType, WavesTypes.holds_UNION_iff] at h
  simp only [List.mem_cons, List.not_mem_nil, or_false, exists_eq_or_imp, exists_eq_left] at h
  rcases h with h | h
  · obtain ⟨values, rfl, -, hfields⟩ := holds_CASETYPEREF_iff.mp h
    exact .inl ⟨values, rfl, hfields _ List.mem_cons_self⟩
  · obtain ⟨values, rfl, -, -⟩ := holds_CASETYPEREF_iff.mp h
    exact .inr ⟨values, rfl, trivial⟩

/-- A declared transfer is taken, unless it goes to an alias. -/
theorem transfer_taken_iff {v : EVALUATED}
    (h : (FINAL.real WavesTypes.scriptTransfer).holds v = true) :
    Obj FieldNames.ScriptTransfer TransferTaken v ↔ ¬ ToAlias v := by
  obtain ⟨fields, rfl, -, hfields⟩ := holds_CASETYPEREF_iff.mp h
  simp only [List.forall_mem_cons] at hfields
  obtain ⟨⟨r, hr, hrecipient⟩, hamount, ⟨asset, hasset, htoken⟩, -⟩ := hfields
  have hr : EVALUATED.field fields FieldNames.Recipient = some r := hr
  rw [ToAlias, obj_iff, obj_iff, inField_iff hr]
  simp only [true_and]
  constructor
  · rintro ⟨htaken, -⟩ halias
    obtain ⟨fields2, rfl, -⟩ := (inField_iff hr).mp htaken
    exact absurd (obj_iff.mp halias).1 (by decide)
  · intro halias
    rcases recipient_of_holds hrecipient with haddress | h
    · exact ⟨⟨r, hr, haddress⟩, hamount, asset, hasset, isToken_of_holds htoken⟩
    · exact absurd h halias

/-- A declared entry is taken. -/
theorem entry_taken {name : String} {t : FINAL} {v : EVALUATED}
    (h : (FINAL.real (.CASETYPEREF name [("key", WavesTypes.STRING), ("value", t)])).holds v
      = true) : Obj name (EntryOf t) v := by
  obtain ⟨fields, rfl, -, hfields⟩ := holds_CASETYPEREF_iff.mp h
  simp only [List.forall_mem_cons] at hfields
  exact ⟨fields, rfl, hfields.1, hfields.2.1⟩

theorem writeSet_taken {v : EVALUATED}
    (h : (FINAL.real WavesTypes.writeSetType).holds v = true) :
    Obj FieldNames.WriteSet WriteSetTaken v := by
  obtain ⟨fields, rfl, -, hfields⟩ := holds_CASETYPEREF_iff.mp h
  obtain ⟨data, hdata, hlist⟩ := hfields _ List.mem_cons_self
  obtain ⟨xs, rfl, hxs⟩ := holds_LIST_iff.mp hlist
  exact ⟨fields, rfl, _, hdata, xs, rfl, fun x hx => entry_taken (hxs x hx)⟩

/-- A declared transfer set is taken, unless one of its transfers goes to an alias. -/
theorem transferSet_taken_iff {fields : Fields}
    (h : (FINAL.real WavesTypes.scriptTransferSetType).holds
      (.CaseObj FieldNames.TransferSet fields) = true) :
    TransferSetTaken fields ↔
      ∀ x ∈ listAt FieldNames.Transfers fields, ¬ ToAlias x ∧ ¬ IsIssue x := by
  obtain ⟨fields', heq, -, hfields⟩ := holds_CASETYPEREF_iff.mp h
  cases heq
  obtain ⟨transfers, htransfers, hlist⟩ := hfields _ List.mem_cons_self
  obtain ⟨xs, rfl, hxs⟩ := holds_LIST_iff.mp hlist
  have hat : listAt FieldNames.Transfers fields = xs := by
    unfold listAt
    rw [htransfers]
  have harr : ∀ P : List EVALUATED → Prop, Arr P (.ARR xs) ↔ P xs := by
    intro P
    unfold Arr
    simp
  rw [hat, TransferSetTaken, inField_iff htransfers, harr]
  refine forall₂_congr fun x hx => ?_
  rw [transfer_taken_iff (hxs x hx), iff_self_and]
  -- a declared transfer is no issue
  rintro - ⟨issue, rfl, -⟩
  obtain ⟨values, hname, -⟩ := holds_CASETYPEREF_iff.mp (hxs _ hx)
  exact absurd (EVALUATED.CaseObj.inj hname).1 (by decide)

/-- What a call of the last version may return in its list. -/
theorem action_of_holds {v : EVALUATED}
    (h : (FINAL.create (WavesTypes.commonDataEntryType .V4 :: .real WavesTypes.scriptTransfer ::
      WavesTypes.callableV4Actions.map .real) none).holds v = true) :
    (∃ r ∈ WavesTypes.typedDataEntries, (FINAL.real r).holds v = true) ∨
      (FINAL.real WavesTypes.scriptTransfer).holds v = true ∨
      ∃ r ∈ WavesTypes.callableV4Actions, (FINAL.real r).holds v = true := by
  obtain ⟨r, hr, hv⟩ := FINAL.holds_iff.mp h
  obtain ⟨t, ht, hrt⟩ := FINAL.mem_create.mp hr
  rcases List.mem_cons.mp ht with rfl | ht
  · exact .inl ⟨r, hrt, hv⟩
  · rcases List.mem_cons.mp ht with rfl | ht
    · rw [FINAL.typeList_real, List.mem_singleton] at hrt
      rw [hrt] at hv
      exact .inr (.inl hv)
    · obtain ⟨s, hs, rfl⟩ := List.mem_map.mp ht
      rw [FINAL.typeList_real, List.mem_singleton] at hrt
      rw [hrt] at hv
      exact .inr (.inr ⟨s, hs, hv⟩)

/-- An object of the name is taken when its fields are, and it is neither a transfer nor an
issue unless that is its name. -/
theorem taken_of_name {name : String} {taken : Fields → Prop} {v : EVALUATED}
    (hv : Obj name taken v) (htransfer : name ≠ FieldNames.ScriptTransfer)
    (hissue : name ≠ FieldNames.Issue) (htaken : ActionTaken name = taken) :
    Object ActionTaken v ↔ ¬ ToAlias v ∧ ¬ IsIssue v := by
  obtain ⟨fields, rfl, hfields⟩ := hv
  rw [object_iff, htaken, ToAlias, IsIssue, obj_iff, obj_iff]
  exact iff_of_true hfields ⟨fun h => htransfer h.1, fun h => hissue h.1⟩

/-- A declared action is taken, unless it is a transfer to an alias or an issue. -/
theorem action_taken_iff {v : EVALUATED}
    (h : (FINAL.create (WavesTypes.commonDataEntryType .V4 :: .real WavesTypes.scriptTransfer ::
      WavesTypes.callableV4Actions.map .real) none).holds v = true) :
    Object ActionTaken v ↔ ¬ ToAlias v ∧ ¬ IsIssue v := by
  rcases action_of_holds h with ⟨r, hr, hv⟩ | hv | ⟨r, hr, hv⟩
  · simp only [WavesTypes.typedDataEntries, List.mem_cons, List.not_mem_nil, or_false] at hr
    rcases hr with rfl | rfl | rfl | rfl
    · exact taken_of_name (entry_taken hv) (by decide) (by decide) rfl
    · exact taken_of_name (entry_taken hv) (by decide) (by decide) rfl
    · exact taken_of_name (entry_taken hv) (by decide) (by decide) rfl
    · exact taken_of_name (entry_taken hv) (by decide) (by decide) rfl
  · have hiff := transfer_taken_iff hv
    obtain ⟨fields, rfl, -⟩ := holds_CASETYPEREF_iff.mp hv
    rw [obj_iff, and_iff_right rfl] at hiff
    have hissue : ¬ IsIssue (.CaseObj FieldNames.ScriptTransfer fields) :=
      fun h => absurd (obj_iff.mp h).1 (by decide)
    rw [object_iff, and_iff_left hissue]
    exact hiff
  · simp only [WavesTypes.callableV4Actions, List.mem_cons, List.not_mem_nil, or_false] at hr
    rcases hr with rfl | rfl | rfl
    · obtain ⟨fields, rfl, -⟩ := holds_CASETYPEREF_iff.mp hv
      rw [object_iff]
      exact iff_of_false id fun h => h.2 (obj_iff.mpr ⟨rfl, trivial⟩)
    · obtain ⟨fields, rfl, -, hfields⟩ := holds_CASETYPEREF_iff.mp hv
      simp only [List.forall_mem_cons] at hfields
      obtain ⟨hid, hreissuable, hquantity, -⟩ := hfields
      have htaken : ReissueTaken fields := ⟨hid, hquantity, hreissuable⟩
      exact taken_of_name ⟨fields, rfl, htaken⟩ (by decide) (by decide) rfl
    · obtain ⟨fields, rfl, -, hfields⟩ := holds_CASETYPEREF_iff.mp hv
      simp only [List.forall_mem_cons] at hfields
      obtain ⟨hid, hquantity, -⟩ := hfields
      have htaken : BurnTaken fields := ⟨hid, hquantity⟩
      exact taken_of_name ⟨fields, rfl, htaken⟩ (by decide) (by decide) rfl

/-- A declared result is taken, unless a transfer in it goes to an alias or an action in it is
an issue. -/
theorem taken_iff {v : EVALUATED} {version : StdLibVersion} (h : OfReturnType v version) :
    Taken v version ↔ ∀ x ∈ itemsOf v, ¬ ToAlias x ∧ ¬ IsIssue x := by
  obtain ⟨t, ht, hv⟩ := h
  cases version with
  | V1 => cases ht
  | V2 => cases ht
  | V3 =>
    cases ht
    obtain ⟨r, hr, hv⟩ := WavesTypes.holds_UNION_iff.mp hv
    simp only [WavesTypes.callableV3Results, List.mem_cons, List.not_mem_nil, or_false] at hr
    rcases hr with rfl | rfl | rfl
    · obtain ⟨fields, rfl, htaken⟩ := writeSet_taken hv
      rw [Taken, if_pos rfl]
      refine iff_of_true htaken fun x hx => ?_
      rw [itemsOf, if_neg (by decide), if_neg (by decide)] at hx
      exact absurd hx List.not_mem_nil
    · obtain ⟨fields, rfl, -⟩ := holds_CASETYPEREF_iff.mp hv
      rw [Taken, if_neg (by decide), if_pos rfl, itemsOf, if_pos rfl]
      exact transferSet_taken_iff hv
    · obtain ⟨fields, rfl, -, hfields⟩ := holds_CASETYPEREF_iff.mp hv
      simp only [List.forall_mem_cons] at hfields
      obtain ⟨⟨w, hw, hwrites⟩, ⟨p, hp, hpayments⟩, -⟩ := hfields
      have hp : EVALUATED.field fields FieldNames.ScriptTransferSet = some p := hp
      obtain ⟨fields2, rfl, -⟩ := holds_CASETYPEREF_iff.mp hpayments
      rw [Taken, if_neg (by decide), if_neg (by decide), if_pos rfl, itemsOf,
        if_neg (by decide), if_pos rfl, hp, ScriptResultTaken, inField_iff hp, obj_iff,
        and_iff_right rfl, transferSet_taken_iff hpayments]
      exact and_iff_right ⟨w, hw, writeSet_taken hwrites⟩
  | V4 =>
    cases ht
    obtain ⟨xs, rfl, hxs⟩ := holds_LIST_iff.mp hv
    rw [Taken, itemsOf]
    exact forall₂_congr fun x hx => action_taken_iff (hxs x hx)

/-! ## 6. What is asked of the decoder -/

/-- **When actions are decoded as they are declared**: what a call returns is decoded without a
throw, to actions exactly when it is of the declared type, and to the actions that it holds, if
and only if it is of the declared type with no transfer to an alias and no issue in it, or it is
not of the declared type and refused. -/
theorem decodes_iff (v : EVALUATED) (version : StdLibVersion) :
    Meets (fromObj v version) (OfReturnType v version) (Carries v) ↔
      (OfReturnType v version ∧ ∀ x ∈ itemsOf v, ¬ ToAlias x ∧ ¬ IsIssue x) ∨
      (¬ OfReturnType v version ∧ Refused v version) := by
  rw [(fromObj_decides version).meets_iff]
  exact or_congr_left (and_congr_right fun h => taken_iff h)

/-- A payment to an alias, as the third version declares it. -/
def aliasPayment : EVALUATED :=
  .CaseObj "TransferSet" [("transfers", .ARR [.CaseObj "ScriptTransfer"
    [("recipient", .CaseObj "Alias" [("alias", .CONST_STRING ⟨"", by decide +kernel⟩)]),
      ("amount", .CONST_LONG 1), ("asset", .CaseObj "Unit" [])]])]

/-- An issue without a script, as the last version declares it. -/
def plainIssue : EVALUATED :=
  .ARR [.CaseObj "Issue" [("Script", .CaseObj "Unit" []), ("decimals", .CONST_LONG 0),
    ("description", .CONST_STRING ⟨"", by decide +kernel⟩), ("isReissuable", .CONST_BOOLEAN false),
    ("name", .CONST_STRING ⟨"", by decide +kernel⟩), ("quantity", .CONST_LONG 1)]]

/-- Both are of the declared type; the first is refused, and the second throws. -/
theorem declared_not_decoded :
    (OfReturnType aliasPayment .V3 ∧ (∃ e, fromObj aliasPayment .V3 = .left e) ∧
      ¬ Meets (fromObj aliasPayment .V3) (OfReturnType aliasPayment .V3) (Carries aliasPayment)) ∧
    (OfReturnType plainIssue .V4 ∧ fromObj plainIssue .V4 = .thrown .NotImplementedError ∧
      ¬ Meets (fromObj plainIssue .V4) (OfReturnType plainIssue .V4) (Carries plainIssue)) := by
  have halias : OfReturnType aliasPayment .V3 := ⟨_, rfl, by decide +kernel⟩
  have hissue : OfReturnType plainIssue .V4 := ⟨_, rfl, by decide +kernel⟩
  have hleft : ∃ e, fromObj aliasPayment .V3 = .left e := ⟨_, rfl⟩
  have hthrown : fromObj plainIssue .V4 = .thrown .NotImplementedError := rfl
  refine ⟨⟨halias, hleft, fun m => ?_⟩, hissue, hthrown, fun m => m.returns _ hthrown⟩
  obtain ⟨r, hr⟩ := m.right_iff.mpr halias
  obtain ⟨e, he⟩ := hleft
  rw [he] at hr
  cases hr

end ScriptResult

end Lang

end WavesNode
