/-
The terms of the language.

An expression is a value or is built of declarations, conditions, references, getters and
calls. The constants that a program may hold are bounded: what makes one checks its size,
and so a constant carries the bound.
-/
import WavesNode.ByteBufferOps

set_option autoImplicit false

namespace WavesNode

namespace Lang

/-! ## 1. Values -/

/-- The limit of a constant: what a data transaction may take. -/
def DATA_TX_BYTES_MAX : ℕ := 150 * 1024

/-- The bytes of a constant. -/
structure ConstBytes where
  bs : ByteStr
  size_le : bs.length ≤ DATA_TX_BYTES_MAX
  deriving DecidableEq

/-- The text of a constant. -/
structure ConstString where
  s : String
  size_le : (utf8Bytes s).length ≤ DATA_TX_BYTES_MAX
  deriving DecidableEq

/-- `EVALUATED`. -/
inductive EVALUATED where
  | CONST_LONG (t : Long)
  | CONST_BYTESTR (bs : ConstBytes)
  | CONST_STRING (s : ConstString)
  | CONST_BOOLEAN (b : Bool)
  | CaseObj (caseType : String) (fields : List (String × EVALUATED))
  | ARR (xs : List EVALUATED)

namespace EVALUATED

/-- `CONST_BYTESTR.apply`. -/
def constBytestr (bs : ByteStr) : Except String EVALUATED :=
  if h : bs.length ≤ DATA_TX_BYTES_MAX then .ok (.CONST_BYTESTR ⟨bs, h⟩)
  else .error s!"ByteStr exceeds {DATA_TX_BYTES_MAX} bytes"

/-- `CONST_STRING.apply`. -/
def constString (s : String) : Except String EVALUATED :=
  if h : (utf8Bytes s).length ≤ DATA_TX_BYTES_MAX then .ok (.CONST_STRING ⟨s, h⟩)
  else .error s!"String exceeds {DATA_TX_BYTES_MAX} bytes"

theorem constBytestr_bs (bs : ConstBytes) : constBytestr bs.bs = .ok (.CONST_BYTESTR bs) :=
  dif_pos bs.size_le

theorem constString_s (s : ConstString) : constString s.s = .ok (.CONST_STRING s) :=
  dif_pos s.size_le

end EVALUATED

/-! ## 2. Expressions -/

mutual

/-- `DECLARATION`. -/
inductive DECLARATION where
  | LET (name : String) (value : EXPR)
  | FUNC (name : String) (args : List String) (body : EXPR)

/-- `EXPR`; `LET_BLOCK` is the older form of a block, with a `LET` in it. -/
inductive EXPR where
  | evaluated (v : EVALUATED)
  | GETTER (expr : EXPR) (field : String)
  | LET_BLOCK (name : String) (value : EXPR) (body : EXPR)
  | BLOCK (dec : DECLARATION) (body : EXPR)
  | IF (cond : EXPR) (ifTrue : EXPR) (ifFalse : EXPR)
  | REF (key : String)
  | FUNCTION_CALL (function : FunctionHeader) (args : List EXPR)

end

end Lang

end WavesNode
