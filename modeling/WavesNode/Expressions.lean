/-
What the parser hands to the compiler.

An expression knows where it stands in the text, and where the parser could not read a part
it says so: the part is kept, with a message, and the compiler refuses it when it gets there.
-/
import WavesNode.Script

set_option autoImplicit false

namespace WavesNode

namespace Lang

namespace Expressions

/-! ## 1. Positions and parts -/

/-- `Pos`. -/
structure Pos where
  start : ℤ
  «end» : ℤ
  deriving DecidableEq

/-- `PART`: what was read, or why it was not. -/
inductive PART (α : Type) where
  | VALID (position : Pos) (v : α)
  | INVALID (position : Pos) (message : String)

/-- Two parts are equal when they read the same, wherever they stand. -/
def PART.same {α : Type} [DecidableEq α] : PART α → PART α → Bool
  | .VALID _ v, .VALID _ w => v = w
  | .INVALID p m, .INVALID q n => p = q ∧ m = n
  | _, _ => false

def PART.toOption {α : Type} : PART α → Option α
  | .VALID _ x => some x
  | .INVALID _ _ => none

/-! ## 2. Operations -/

/-- `BinaryOperation`. -/
inductive BinaryOperation where
  | OR_OP | AND_OP | EQ_OP | NE_OP | GE_OP | GT_OP | SUM_OP | SUB_OP | MUL_OP | DIV_OP | MOD_OP
  | LE_OP | LT_OP | CONS_OP | LIST_APPEND_OP | LIST_CONCAT_OP
  deriving DecidableEq

/-- `opsToFunctions`: what is less stands with its operands exchanged. -/
def opsToFunctions : BinaryOperation → String
  | .OR_OP => "||"
  | .AND_OP => "&&"
  | .EQ_OP => "=="
  | .NE_OP => "!="
  | .GE_OP => ">="
  | .GT_OP => ">"
  | .SUM_OP => "+"
  | .SUB_OP => "-"
  | .MUL_OP => "*"
  | .DIV_OP => "/"
  | .MOD_OP => "%"
  | .LE_OP => ">="
  | .LT_OP => ">"
  | .CONS_OP => "::"
  | .LIST_APPEND_OP => ":+"
  | .LIST_CONCAT_OP => "++"

/-! ## 3. Expressions -/

/-- The name of a type, and what it is applied to. -/
abbrev TypeDecl := PART String × Option (PART String)

mutual

/-- `Declaration`. -/
inductive Declaration where
  | LET (position : Pos) (name : PART String) (value : EXPR) (types : List (PART String))
      (allowShadowing : Bool)
  | FUNC (position : Pos) (name : PART String) (args : List (PART String × List TypeDecl))
      (expr : EXPR)

/-- `EXPR`, of the parser. -/
inductive EXPR where
  | CONST_LONG (position : Pos) (value : Long)
  | GETTER (position : Pos) (ref : EXPR) (field : PART String)
  | CONST_BYTESTR (position : Pos) (value : PART ByteStr)
  | CONST_STRING (position : Pos) (value : PART String)
  | BINARY_OP (position : Pos) (a : EXPR) (kind : BinaryOperation) (b : EXPR)
  | BLOCK (position : Pos) («let» : Declaration) (body : EXPR)
  | IF (position : Pos) (cond : EXPR) (ifTrue : EXPR) (ifFalse : EXPR)
  | REF (position : Pos) (key : PART String)
  | TRUE (position : Pos)
  | FALSE (position : Pos)
  | FUNCTION_CALL (position : Pos) (name : PART String) (args : List EXPR)
  | MATCH (position : Pos) (expr : EXPR) (cases : List MATCH_CASE)
  | INVALID (position : Pos) (message : String)

/-- `MATCH_CASE`; without types it takes every value. -/
inductive MATCH_CASE where
  | mk (position : Pos) (newVarName : Option (PART String)) (types : List (PART String))
      (expr : EXPR)

end

namespace Declaration

def name : Declaration → PART String
  | .LET _ name _ _ _ => name
  | .FUNC _ name _ _ => name

def allowShadowing : Declaration → Bool
  | .LET _ _ _ _ allowShadowing => allowShadowing
  | .FUNC _ _ _ _ => false

end Declaration

namespace MATCH_CASE

def position : MATCH_CASE → Pos
  | .mk position _ _ _ => position

def newVarName : MATCH_CASE → Option (PART String)
  | .mk _ newVarName _ _ => newVarName

def types : MATCH_CASE → List (PART String)
  | .mk _ _ types _ => types

def expr : MATCH_CASE → EXPR
  | .mk _ _ _ expr => expr

end MATCH_CASE

end Expressions

end Lang

end WavesNode
