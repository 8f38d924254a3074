/-
Scripts as the node sees them: a language version, the kind of program, and bytes.

The language itself (parsing a script, estimating it, running it) lives in the
`lang` part of the repository and is far larger than the ledger. Here a script is
what ledger code inspects: its standard-library version, whether it is a plain
expression or a contract with or without a verifier, whether it contains a
second-version block, and its bytes. What running it yields is a field of `Ride`
(in `Environment`), never a fixed function.
-/
import WavesNode.Account

set_option autoImplicit false

namespace WavesNode

/-! ## 1. Scripts -/

/-- The standard-library versions. -/
inductive StdLibVersion where
  | V1
  | V2
  | V3
  | V4
  deriving DecidableEq

namespace StdLibVersion

def id : StdLibVersion → ℕ
  | V1 => 1
  | V2 => 2
  | V3 => 3
  | V4 => 4

/-- Only the last version attaches several payments to one call. -/
def supportsMultiPayment : StdLibVersion → Bool
  | V4 => true
  | _ => false

end StdLibVersion

/-- `ExprScript`, or `ContractScriptImpl` with or without a verifier function. -/
inductive ScriptExpr where
  | expr
  | dApp (hasVerifier : Bool)
  deriving DecidableEq

/-- A decoded script. -/
structure Script where
  stdLibVersion : StdLibVersion
  expr : ScriptExpr
  containsBlockV2 : Bool
  bytes : ByteStr
  deriving DecidableEq

/-! ## 2. Calls and the actions they return -/

/-- An argument of a call: one of the four literals, or any other expression, which
is known by its serialized form. -/
inductive CallArg where
  | CONST_LONG (value : Long)
  | CONST_BOOLEAN (value : Bool)
  | CONST_BYTESTR (value : ByteStr)
  | CONST_STRING (value : String)
  | other (bytes : ByteStr)
  deriving DecidableEq

inductive FunctionHeader where
  | Native (name : Int16)
  | User (internalName : String)
  deriving DecidableEq

/-- `FUNCTION_CALL`. -/
structure FunctionCall where
  function : FunctionHeader
  args : List CallArg
  deriving DecidableEq

/-- A typed entry of an account's data. -/
inductive DataEntryValue where
  | Integer (value : Long)
  | Boolean (value : Bool)
  | Binary (value : ByteStr)
  | String (value : String)
  deriving DecidableEq

structure DataEntry where
  key : String
  value : DataEntryValue
  /-- `dataBytesOpt`: the bytes a string entry was read from. -/
  dataBytes : Option ByteStr := none
  deriving DecidableEq

/-- `AssetTransfer`: the recipient is the raw bytes the script returned. -/
structure AssetTransfer where
  recipient : ByteStr
  amount : Long
  assetId : Option ByteStr
  deriving DecidableEq

structure Reissue where
  assetId : ByteStr
  isReissuable : Bool
  quantity : Long
  deriving DecidableEq

structure Burn where
  assetId : ByteStr
  quantity : Long
  deriving DecidableEq

/-- `CallableAction`. Issuing from a call is declared by the language but not
implemented by the node, so its fields are never read. -/
inductive CallableAction where
  | transfer (t : AssetTransfer)
  | dataItem (d : DataEntry)
  | issue
  | reissue (r : Reissue)
  | burn (b : Burn)
  deriving DecidableEq

namespace CallableAction

def transfer? : CallableAction → Option AssetTransfer
  | transfer t => some t
  | _ => none

def dataItem? : CallableAction → Option DataEntry
  | dataItem d => some d
  | _ => none

def reissue? : CallableAction → Option Reissue
  | reissue r => some r
  | _ => none

def burn? : CallableAction → Option Burn
  | burn b => some b
  | _ => none

end CallableAction

end WavesNode
