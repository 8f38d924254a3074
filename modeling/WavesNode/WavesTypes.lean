/-
The types that the node declares to scripts.

Names and fields are those of the declarations, version by version: what is declared here is
what the compiler checks a program against, and the objects that a program meets are built
elsewhere, field by field, a second time.
-/
import WavesNode.Script
import WavesNode.TypedValues

set_option autoImplicit false

namespace WavesNode

namespace Lang

/-! ## 1. The names of types and fields -/

namespace FieldNames

def WriteSet : String := "WriteSet"
def ScriptTransfer : String := "ScriptTransfer"
def TransferSet : String := "TransferSet"
def ScriptResult : String := "ScriptResult"
def Transfers : String := "transfers"
def ScriptTransferSet : String := "transferSet"
def Data : String := "data"
def ScriptWriteSet : String := "writeSet"

def DataEntry : String := "DataEntry"
def BooleanEntry : String := "BooleanEntry"
def StringEntry : String := "StringEntry"
def BinaryEntry : String := "BinaryEntry"
def IntEntry : String := "IntEntry"

def Recipient : String := "recipient"
def Amount : String := "amount"
def Asset : String := "asset"
def Key : String := "key"
def Value : String := "value"

def IssueScript : String := "Script"
def Issue : String := "Issue"
def IssueName : String := "name"
def IssueQuantity : String := "quantity"
def IssueDecimals : String := "decimals"
def IssueDescription : String := "description"
def IssueIsReissuable : String := "isReissuable"

def Reissue : String := "Reissue"
def ReissueAssetId : String := "assetId"
def ReissueQuantity : String := "quantity"
def ReissueIsReissuable : String := "isReissuable"

def Burn : String := "Burn"
def BurnAssetId : String := "assetId"
def BurnQuantity : String := "quantity"

end FieldNames

/-! ## 2. Types of every version -/

/-- The versions are ordered. -/
def atLeast (v w : StdLibVersion) : Bool := decide (w.id ≤ v.id)

namespace WavesTypes

abbrev LONG : FINAL := .real .LONG
abbrev BYTESTR : FINAL := .real .BYTESTR
abbrev BOOLEAN : FINAL := .real .BOOLEAN
abbrev STRING : FINAL := .real .STRING

/-- `UNION(...)`, of real types. -/
def UNION (l : List REAL) : FINAL := .create (l.map .real) none

theorem holds_UNION_iff {l : List REAL} {v : EVALUATED} :
    (UNION l).holds v = true ↔ ∃ r ∈ l, (FINAL.real r).holds v = true := by
  rw [UNION, FINAL.holds_create]
  simp

def UNIT : REAL := .CASETYPEREF "Unit" []
def optionByteVector : FINAL := UNION [.BYTESTR, UNIT]
def optionLong : FINAL := UNION [.LONG, UNIT]
def listByteVector : FINAL := .list BYTESTR

def addressType : REAL := .CASETYPEREF "Address" [("bytes", BYTESTR)]
def aliasType : REAL := .CASETYPEREF "Alias" [("alias", STRING)]
def addressOrAliasType : FINAL := UNION [addressType, aliasType]

def transfer : REAL :=
  .CASETYPEREF "Transfer" [("recipient", addressOrAliasType), ("amount", LONG)]

def listTransfers : FINAL := .list (.real transfer)

def paymentType : REAL :=
  .CASETYPEREF "AttachedPayment" [("assetId", optionByteVector), ("amount", LONG)]

def optionPayment : FINAL := UNION [paymentType, UNIT]
def listPayment : FINAL := .list (.real paymentType)

def payments (multiPaymentAllowed : Bool) : String × FINAL :=
  if multiPaymentAllowed then ("payments", listPayment) else ("payment", optionPayment)

def invocationType (v : StdLibVersion) : REAL :=
  .CASETYPEREF "Invocation" (payments v.supportsMultiPayment ::
    [("caller", .real addressType), ("callerPublicKey", BYTESTR), ("transactionId", BYTESTR),
      ("fee", LONG), ("feeAssetId", optionByteVector)])

/-! ## 3. Entries, and what a call returns -/

def dataEntryValueType : FINAL := UNION [.LONG, .BOOLEAN, .BYTESTR, .STRING]

def genericDataEntry : REAL :=
  .CASETYPEREF FieldNames.DataEntry [("key", STRING), ("value", dataEntryValueType)]

def buildTypedEntry (name : String) (valueType : REAL) : REAL :=
  .CASETYPEREF name [("key", STRING), ("value", .real valueType)]

def booleanDataEntry : REAL := buildTypedEntry FieldNames.BooleanEntry .BOOLEAN
def stringDataEntry : REAL := buildTypedEntry FieldNames.StringEntry .STRING
def binaryDataEntry : REAL := buildTypedEntry FieldNames.BinaryEntry .BYTESTR
def intDataEntry : REAL := buildTypedEntry FieldNames.IntEntry .LONG

def typedDataEntries : List REAL :=
  [booleanDataEntry, stringDataEntry, binaryDataEntry, intDataEntry]

def commonDataEntryType (v : StdLibVersion) : FINAL :=
  if atLeast v .V4 then .UNION typedDataEntries none else .real genericDataEntry

def writeSetType : REAL :=
  .CASETYPEREF FieldNames.WriteSet [(FieldNames.Data, .list (commonDataEntryType .V3))]

def scriptTransfer : REAL :=
  .CASETYPEREF FieldNames.ScriptTransfer
    [("recipient", addressOrAliasType), ("amount", LONG), ("asset", optionByteVector)]

def scriptTransferSetType : REAL :=
  .CASETYPEREF FieldNames.TransferSet [(FieldNames.Transfers, .list (.real scriptTransfer))]

def scriptResultType : REAL :=
  .CASETYPEREF FieldNames.ScriptResult
    [(FieldNames.ScriptWriteSet, .real writeSetType),
      (FieldNames.ScriptTransferSet, .real scriptTransferSetType)]

def issueScriptType : REAL := .CASETYPEREF FieldNames.IssueScript []

def issueActionType : REAL :=
  .CASETYPEREF FieldNames.Issue
    [(FieldNames.IssueScript, UNION [issueScriptType, UNIT]), (FieldNames.IssueDecimals, LONG),
      (FieldNames.IssueDescription, STRING), (FieldNames.IssueIsReissuable, BOOLEAN),
      (FieldNames.IssueName, STRING), (FieldNames.IssueQuantity, LONG)]

def reissueActionType : REAL :=
  .CASETYPEREF FieldNames.Reissue
    [(FieldNames.ReissueAssetId, BYTESTR), (FieldNames.ReissueIsReissuable, BOOLEAN),
      (FieldNames.ReissueQuantity, LONG)]

def burnActionType : REAL :=
  .CASETYPEREF FieldNames.Burn [(FieldNames.BurnAssetId, BYTESTR), (FieldNames.BurnQuantity, LONG)]

def callableV3Results : List REAL := [writeSetType, scriptTransferSetType, scriptResultType]

def callableV4Actions : List REAL := [issueActionType, reissueActionType, burnActionType]

def callableV3ReturnType : FINAL := UNION callableV3Results

def callableV4ReturnType : FINAL :=
  .list (.create (commonDataEntryType .V4 :: .real scriptTransfer :: callableV4Actions.map .real)
    none)

def callableReturnType : StdLibVersion → Except String FINAL
  | .V3 => .ok callableV3ReturnType
  | .V4 => .ok callableV4ReturnType
  | v => .error s!"DApp is not supported for VV{v.id}"

/-! ## 4. Transactions and orders -/

def header : List (String × FINAL) :=
  [("id", BYTESTR), ("fee", LONG), ("timestamp", LONG), ("version", LONG)]

def proven : List (String × FINAL) :=
  [("sender", .real addressType), ("senderPublicKey", BYTESTR), ("bodyBytes", BYTESTR)]

def proofs : String × FINAL := ("proofs", listByteVector)

def genesisTransactionType : REAL :=
  .CASETYPEREF "GenesisTransaction"
    ([("amount", LONG), ("recipient", addressOrAliasType)] ++ header)

def addProofsIfNeeded (commonFields : List (String × FINAL)) (proofsEnabled : Bool) :
    List (String × FINAL) :=
  if proofsEnabled then commonFields ++ [proofs] else commonFields

/-- A type of transaction: its own fields, and those of every transaction with proofs. -/
def buildProvenType (name : String) (own : List (String × FINAL)) (proofsEnabled : Bool) : REAL :=
  .CASETYPEREF name (addProofsIfNeeded (own ++ header ++ proven) proofsEnabled)

def transferFields : List (String × FINAL) :=
  [("feeAssetId", optionByteVector), ("amount", LONG), ("assetId", optionByteVector),
    ("recipient", addressOrAliasType), ("attachment", BYTESTR)]

def buildTransferTransactionType : Bool → REAL :=
  buildProvenType "TransferTransaction" transferFields

def issueFields : List (String × FINAL) :=
  [("quantity", LONG), ("name", BYTESTR), ("description", BYTESTR), ("reissuable", BOOLEAN),
    ("decimals", LONG), ("script", optionByteVector)]

def buildIssueTransactionType : Bool → REAL := buildProvenType "IssueTransaction" issueFields

def invokeScriptFields : List (String × FINAL) :=
  [("dApp", addressOrAliasType), ("feeAssetId", optionByteVector), ("function", STRING),
    ("args", .list (UNION [.LONG, .STRING, .BOOLEAN, .BYTESTR]))]

/-- The payments stand behind the fields of every transaction. -/
def buildInvokeScriptTransactionType (proofsEnabled : Bool) (version : StdLibVersion) : REAL :=
  .CASETYPEREF "InvokeScriptTransaction"
    (addProofsIfNeeded
      (invokeScriptFields ++ header ++ proven ++ [payments version.supportsMultiPayment])
      proofsEnabled)

def reissueFields : List (String × FINAL) :=
  [("quantity", LONG), ("assetId", BYTESTR), ("reissuable", BOOLEAN)]

def buildReissueTransactionType : Bool → REAL := buildProvenType "ReissueTransaction" reissueFields

def burnFields : List (String × FINAL) := [("quantity", LONG), ("assetId", BYTESTR)]

def buildBurnTransactionType : Bool → REAL := buildProvenType "BurnTransaction" burnFields

def setAssetScriptFields : List (String × FINAL) :=
  [("script", optionByteVector), ("assetId", BYTESTR)]

def buildSetAssetScriptTransactionType : Bool → REAL :=
  buildProvenType "SetAssetScriptTransaction" setAssetScriptFields

def leaseFields : List (String × FINAL) := [("amount", LONG), ("recipient", addressOrAliasType)]

def buildLeaseTransactionType : Bool → REAL := buildProvenType "LeaseTransaction" leaseFields

def leaseCancelFields : List (String × FINAL) := [("leaseId", BYTESTR)]

def buildLeaseCancelTransactionType : Bool → REAL :=
  buildProvenType "LeaseCancelTransaction" leaseCancelFields

def createAliasFields : List (String × FINAL) := [("alias", STRING)]

def buildCreateAliasTransactionType : Bool → REAL :=
  buildProvenType "CreateAliasTransaction" createAliasFields

def paymentFields : List (String × FINAL) := [("amount", LONG), ("recipient", addressOrAliasType)]

def buildPaymentTransactionType : Bool → REAL := buildProvenType "PaymentTransaction" paymentFields

def sponsorFeeFields : List (String × FINAL) :=
  [("assetId", BYTESTR), ("minSponsoredAssetFee", optionLong)]

def buildSponsorFeeTransactionType : Bool → REAL :=
  buildProvenType "SponsorFeeTransaction" sponsorFeeFields

def buyType : REAL := .CASETYPEREF "Buy" []
def sellType : REAL := .CASETYPEREF "Sell" []

def ordTypeType : FINAL := UNION [buyType, sellType]

def assetPairType : REAL :=
  .CASETYPEREF "AssetPair" [("amountAsset", optionByteVector), ("priceAsset", optionByteVector)]

def orderFields : List (String × FINAL) :=
  [("id", BYTESTR), ("matcherPublicKey", BYTESTR), ("assetPair", .real assetPairType),
    ("orderType", ordTypeType), ("price", LONG), ("amount", LONG), ("timestamp", LONG),
    ("expiration", LONG), ("matcherFee", LONG), ("matcherFeeAssetId", optionByteVector)]

def buildOrderType (proofsEnabled : Bool) : REAL :=
  .CASETYPEREF "Order" (addProofsIfNeeded (orderFields ++ proven) proofsEnabled)

def exchangeFields (proofsEnabled : Bool) : List (String × FINAL) :=
  [("buyOrder", .real (buildOrderType proofsEnabled)),
    ("sellOrder", .real (buildOrderType proofsEnabled)), ("price", LONG), ("amount", LONG),
    ("buyMatcherFee", LONG), ("sellMatcherFee", LONG)]

def buildExchangeTransactionType (proofsEnabled : Bool) : REAL :=
  buildProvenType "ExchangeTransaction" (exchangeFields proofsEnabled) proofsEnabled

def dataFields (v : StdLibVersion) : List (String × FINAL) :=
  [("data", .list (commonDataEntryType v))]

def buildDataTransactionType (proofsEnabled : Bool) (v : StdLibVersion) : REAL :=
  buildProvenType "DataTransaction" (dataFields v) proofsEnabled

def massTransferFields : List (String × FINAL) :=
  [("feeAssetId", optionByteVector), ("assetId", optionByteVector), ("totalAmount", LONG),
    ("transfers", listTransfers), ("transferCount", LONG), ("attachment", BYTESTR)]

def buildMassTransferTransactionType : Bool → REAL :=
  buildProvenType "MassTransferTransaction" massTransferFields

def setScriptFields : List (String × FINAL) := [("script", optionByteVector)]

def buildSetScriptTransactionType : Bool → REAL :=
  buildProvenType "SetScriptTransaction" setScriptFields

def buildObsoleteTransactionTypes (proofsEnabled : Bool) : List REAL :=
  [genesisTransactionType, buildPaymentTransactionType proofsEnabled]

def buildAssetSupportedTransactions (proofsEnabled : Bool) (v : StdLibVersion) : List REAL :=
  [buildReissueTransactionType proofsEnabled, buildBurnTransactionType proofsEnabled,
    buildMassTransferTransactionType proofsEnabled, buildExchangeTransactionType proofsEnabled,
    buildTransferTransactionType proofsEnabled, buildSetAssetScriptTransactionType proofsEnabled] ++
  if atLeast v .V3 then [buildInvokeScriptTransactionType proofsEnabled v] else []

def buildActiveTransactionTypes (proofsEnabled : Bool) (v : StdLibVersion) : List REAL :=
  buildAssetSupportedTransactions proofsEnabled v ++
    [buildIssueTransactionType proofsEnabled, buildLeaseTransactionType proofsEnabled,
      buildLeaseCancelTransactionType proofsEnabled,
      buildCreateAliasTransactionType proofsEnabled, buildSetScriptTransactionType proofsEnabled,
      buildSponsorFeeTransactionType proofsEnabled, buildDataTransactionType proofsEnabled v]

def anyTransactionType (proofsEnabled : Bool) (version : StdLibVersion) : FINAL :=
  .UNION (buildObsoleteTransactionTypes proofsEnabled ++
    buildActiveTransactionTypes proofsEnabled version) none

end WavesTypes

end Lang

end WavesNode
