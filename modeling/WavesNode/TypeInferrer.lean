/-
The types of functions, and how the types of a call are inferred.

A function may be declared over type parameters. What a call passes is matched with what the
function takes: each parameter gathers the types it was met with, and stands for their common
type when one member of it is below all of them.
-/
import WavesNode.Script
import WavesNode.Types
import Mathlib.Data.List.Sort

set_option autoImplicit false

namespace WavesNode

namespace Lang

/-! ## 1. Names of types -/

/-- The texts in order, with a bar between them. -/
def mkUnionName (names : List String) : String :=
  "|".intercalate (names.insertionSort fun a b => a ≤ b)

mutual

/-- `name` of a real type. -/
def REAL.name : REAL → String
  | .LONG => "Int"
  | .BYTESTR => "ByteVector"
  | .BOOLEAN => "Boolean"
  | .STRING => "String"
  | .LIST innerType => "List[" ++ innerType.name ++ "]"
  | .CASETYPEREF name _ => name

/-- `name` of a type. -/
def FINAL.name : FINAL → String
  | .NOTHING => "Nothing"
  | .real r => r.name
  | .UNION ts n => n.getD (mkUnionName (namesOf ts))

def namesOf : List REAL → List String
  | [] => []
  | t :: ts => t.name :: namesOf ts

end

/-- `fields` of a real type. -/
def REAL.fields : REAL → List (String × FINAL)
  | .CASETYPEREF _ fields => fields
  | _ => []

/-! ## 2. Types with parameters -/

/-- `TYPE`. -/
inductive TYPE where
  | final (t : FINAL)
  | TYPEPARAM (char : UInt8)
  | PARAMETERIZEDLIST (t : TYPE)
  | PARAMETERIZEDUNION (l : List TYPE)

mutual

/-- `toString` of a type. -/
def TYPE.toText : TYPE → String
  | .final t => t.name
  | .TYPEPARAM char => String.singleton (Char.ofNat char.toNat)
  | .PARAMETERIZEDLIST t => "List[" ++ t.toText ++ "]"
  | .PARAMETERIZEDUNION l => "|".intercalate (textsOf l)

def textsOf : List TYPE → List String
  | [] => []
  | t :: ts => t.toText :: textsOf ts

end

/-- A computation that returns `Left`, or throws. -/
inductive CompilerFailure (ε : Type) where
  | left (e : ε)
  | thrown

/-- `FunctionTypeSignature`. -/
structure FunctionTypeSignature where
  result : TYPE
  args : List (String × TYPE)
  header : FunctionHeader

namespace TypeInferrer

/-! ## 3. Matching -/

structure MatchResult where
  tpe : FINAL
  name : UInt8

/-- The error of `matchTypes`. -/
def nonMatching (placeholder : TYPE) (argType : FINAL) : CompilerFailure String :=
  .left s!"Non-matching types: expected: {placeholder.toText}, actual: {argType.name}"

/-- The members of a type, as a union. -/
def membersOf (t : FINAL) : FINAL := .create (t.typeList.map .real) none

/-- `matchTypes`, with a placeholder that has no parameters. -/
def matchFinal : FINAL → FINAL → Except (CompilerFailure String) (Option MatchResult)
  | .real (.LIST tp), .real (.LIST t) => matchFinal tp t
  | placeholder, argType =>
    if placeholder.ge (membersOf argType) then pure none
    else throw (nonMatching (.final placeholder) argType)

/-- The real types of a parameterized union. -/
def concretes (l : List TYPE) : List REAL :=
  l.filterMap fun
    | .final (.real r) => some r
    | _ => none

mutual

/-- `matchTypes`. -/
def matchTypes : TYPE → FINAL → Except (CompilerFailure String) (Option MatchResult)
  | .TYPEPARAM char, argType => pure (some ⟨argType, char⟩)
  | .PARAMETERIZEDLIST innerTypeParam, argType =>
    match argType with
    | .real (.LIST t) => matchTypes innerTypeParam t
    | _ => throw (nonMatching (.PARAMETERIZEDLIST innerTypeParam) argType)
  | .PARAMETERIZEDUNION l, argType =>
    let conctretes := FINAL.create ((concretes l).map .real) none
    if conctretes.ge (membersOf argType) then pure none
    else
      match parameterized l with
      | [singlePlaceholder] =>
        match argType with
        | .NOTHING => throw .thrown
        | .UNION argTypes _ =>
          singlePlaceholder
            (.UNION (argTypes.filter fun t => decide (t ∉ conctretes.typeList)) none)
        | s => singlePlaceholder s
      | _ =>
        let placeholder := (TYPE.PARAMETERIZEDUNION l).toText
        throw (.left (s!"Can't resolve correct type for parameterized {placeholder}, " ++
          s!"actual: {argType.name}"))
  | .final placeholder, argType => matchFinal placeholder argType

/-- `matchTypes` with each parameterized member of a union. -/
def parameterized : List TYPE → List (FINAL → Except (CompilerFailure String) (Option MatchResult))
  | [] => []
  | .final _ :: ts => parameterized ts
  | .TYPEPARAM char :: ts => (fun t => matchTypes (.TYPEPARAM char) t) :: parameterized ts
  | .PARAMETERIZEDLIST inner :: ts =>
    (fun t => matchTypes (.PARAMETERIZEDLIST inner) t) :: parameterized ts
  | .PARAMETERIZEDUNION l :: ts =>
    (fun t => matchTypes (.PARAMETERIZEDUNION l) t) :: parameterized ts

end

/-! ## 4. Inference -/

section
variable [FINAL.SetOrder]

/-- `findCommonType`, of many branches; of none it throws. -/
def findCommonType : List FINAL → Option FINAL
  | [] => none
  | [one] => some one
  | head :: tail => (findCommonType tail).map fun t => FINAL.findCommonType head t

/-- What one parameter stands for, from the types that it was met with. -/
def resolve (name : UInt8) : List FINAL → Except (CompilerFailure String) FINAL
  | [] => throw .thrown
  | [tpe] => pure tpe
  | h :: t =>
    match t.foldl FINAL.findCommonType h with
    | .UNION plainTypes n =>
      if plainTypes.any fun p => (h :: t).all fun e => e.ge (.real p) then
        pure (.UNION plainTypes n)
      else
        let types := ", ".intercalate ((h :: t).map FINAL.name)
        throw (.left (s!"Can't match inferred types of {(TYPE.TYPEPARAM name).toText} " ++
          s!"over List({types})"))
    | commonType => pure commonType

/-- A union of one type is that type. -/
def unwrapped : FINAL → FINAL
  | .UNION [x] _ => .real x
  | x => x

/-- `TypeInferrer.apply`: each parameter, with the type it stands for. -/
def infer (seq : List (FINAL × TYPE)) : Except (CompilerFailure String) (List (UInt8 × FINAL)) := do
  let matching ← seq.mapM fun x => matchTypes x.2 x.1
  let matchResults := matching.filterMap id
  (matchResults.map MatchResult.name).eraseDups.mapM fun name => do
    let tpe ← resolve name ((matchResults.filter (·.name == name)).map MatchResult.tpe)
    pure (name, unwrapped tpe)

end

mutual

/-- `toFinal`: the type of a result, with its parameters resolved. -/
def toFinal (resolvedPlaceholders : List (UInt8 × FINAL)) : TYPE → Option FINAL
  | .final t => some t
  | .TYPEPARAM tp => resolvedPlaceholders.lookup tp
  | .PARAMETERIZEDUNION l => (toFinals resolvedPlaceholders l).map fun ts => .create ts none
  | .PARAMETERIZEDLIST t => (toFinal resolvedPlaceholders t).map .list

def toFinals (resolvedPlaceholders : List (UInt8 × FINAL)) : List TYPE → Option (List FINAL)
  | [] => some []
  | t :: ts =>
    match toFinal resolvedPlaceholders t, toFinals resolvedPlaceholders ts with
    | some r, some rs => some (r :: rs)
    | _, _ => none

end

end TypeInferrer

end Lang

end WavesNode
