/-
The compiler of expressions.

The context says which types, values and functions have a name. A declaration is compiled
with the context as it is, and its body in a context of its own, so that what is declared ends
with its body; a match takes a number for its value while it is compiled and gives it back. So
whatever is compiled, the context is the same afterwards (`keeps_compileExprWithCtx`).

A match is rewritten before it is compiled: the value goes under a name that no program can
write, each case becomes a condition on the types of that name, and what is left at the end
throws.
-/
import WavesNode.Expressions
import WavesNode.Terms
import WavesNode.TypeInferrer

set_option autoImplicit false

namespace WavesNode

namespace Lang

open Expressions (Pos PART MATCH_CASE Declaration TypeDecl BinaryOperation)

/-! ## 1. The context, and the errors -/

/-- `CompilerContext`. -/
structure CompilerContext where
  predefTypes : List (String × FINAL)
  varDefs : String → Option FINAL
  functionDefs : String → Option (List FunctionTypeSignature)
  tmpArgsIdx : ℕ

namespace CompilerContext

def typeNames (ctx : CompilerContext) : List String := ctx.predefTypes.map Prod.fst

def predefType (ctx : CompilerContext) (name : String) : Option FINAL := ctx.predefTypes.lookup name

/-- The constructor of a case type, under the type's name. -/
def constructorOf (ctx : CompilerContext) (name : String) : Option (List FunctionTypeSignature) :=
  ctx.predefTypes.findSome? fun p =>
    match p.2 with
    | .real (.CASETYPEREF typeName fields) =>
      if typeName = name then
        some [⟨.final p.2, fields.map fun f => (f.1, .final f.2), .User typeName⟩]
      else none
    | _ => none

/-- `functionTypeSignaturesByName`. -/
def functionTypeSignaturesByName (ctx : CompilerContext) (name : String) :
    List FunctionTypeSignature :=
  ((ctx.functionDefs name).or (ctx.constructorOf name)).getD []

def withVar (ctx : CompilerContext) (name : String) (t : FINAL) : CompilerContext :=
  { ctx with varDefs := Function.update ctx.varDefs name (some t) }

def withVars (ctx : CompilerContext) (l : List (String × FINAL)) : CompilerContext :=
  l.foldl (fun c p => c.withVar p.1 p.2) ctx

def withFunction (ctx : CompilerContext) (name : String) (sig : FunctionTypeSignature) :
    CompilerContext :=
  { ctx with functionDefs := Function.update ctx.functionDefs name (some [sig]) }

def withIdx (ctx : CompilerContext) (tmpArgsIdx : ℕ) : CompilerContext :=
  { ctx with tmpArgsIdx := tmpArgsIdx }

end CompilerContext

/-- `CompilationError`. -/
inductive CompilationError where
  | MatchOnlyUnion (start «end» : ℤ)
  | MatchNotExhaustive (start «end» : ℤ) (possible matched : List REAL)
  | AlreadyDefined (start «end» : ℤ) (name : String) (isFunction : Bool)
  | NonExistingType (start «end» : ℤ) (name : String) (existing : List String)
  | BadFunctionSignatureSameArgNames (start «end» : ℤ) (name : String)
  | FunctionNotFound (start «end» : ℤ) (name : String) (argTypes : List String)
  | OverloadNotFound (start «end» : ℤ) (name : String) (argTypes : List String)
  | AmbiguousOverloading (start «end» : ℤ) (name : String)
      (candidates : List FunctionTypeSignature)
  | DefNotFound (start «end» : ℤ) (key : String)
  | WrongArgumentsNumber (start «end» : ℤ) (name : String) (required found : ℕ)
  | UnexpectedType (start «end» : ℤ) (required found : String)
  | TypeNotFound (start «end» : ℤ) (name : String) (expectedTypes : List String)
      (varName : Option String)
  | GenericTypeNotFound (start «end» : ℤ) (t : String)
  | FieldNotFound (start «end» : ℤ) (name typeName : String)
  | Generic (start «end» : ℤ) (message : String)

/-- `CompileM`, over fuel: without a result, the compiler has not ended. -/
abbrev CompileM (α : Type) :=
  StateT CompilerContext (ExceptT (CompilerFailure CompilationError) Option) α

namespace CompileM

variable {α : Type}

def outOfFuel : CompileM α := fun _ => (none : Option _)

def raiseError (e : CompilationError) : CompileM α := throw (.left e)

def thrown : CompileM α := throw .thrown

/-- `local`: on a copy of the context. -/
def local_ (fa : CompileM α) : CompileM α := fun ctx => do
  let r ← fa ctx
  pure (r.1, ctx)

/-- `toCompileM`. -/
def lift (ei : Except (CompilerFailure CompilationError) α) : CompileM α :=
  match ei with
  | .ok a => pure a
  | .error e => throw e

/-- `ensure`. -/
def ensure (e : CompilationError) (cond : Bool) : CompileM Unit :=
  if cond then pure () else raiseError e

end CompileM

namespace ExpressionCompiler

open CompileM

/-- `handlePart`. -/
def handlePart {α : Type} : PART α → CompileM α
  | .VALID _ x => pure x
  | .INVALID p message => raiseError (.Generic p.start p.end message)

/-! ## 2. Names of types -/

/-- `flatSingle`: a union stands for its members. -/
def flatSingle (pos : Pos) (typeDefs : List (String × FINAL)) (definedTypesStr : List String)
    (expectedTypes : List String) (varName : Option String) (typeName : String) :
    Except (CompilerFailure CompilationError) (List FINAL) :=
  match typeDefs.lookup typeName with
  | some (.UNION unionTypes _) => pure (unionTypes.map .real)
  | some realType => pure [realType]
  | none =>
    let messageTypes := if expectedTypes.isEmpty then definedTypesStr else expectedTypes
    throw (.left (.TypeNotFound pos.start pos.end typeName messageTypes varName))

/-- `flat`. -/
def flat (pos : Pos) (typeDefs : List (String × FINAL)) (definedTypes : List String)
    (expectedTypes : List String) (varName : Option String) :
    Except (CompilerFailure CompilationError) (List FINAL) :=
  List.flatten <$> definedTypes.mapM
    (flatSingle pos typeDefs definedTypes expectedTypes varName)

/-- `findGenericType`. -/
def findGenericType (p : Pos) (t : String) :
    Except (CompilerFailure CompilationError) (FINAL → FINAL) :=
  if t = "List" then pure .list else throw (.left (.GenericTypeNotFound p.start p.end t))

/-- `UNION.reduce`, which throws on a union of nothing. -/
def reduce (u : FINAL) : Except (CompilerFailure CompilationError) FINAL :=
  match u.typeList with
  | [] => throw .thrown
  | [x] => pure (.real x)
  | _ => pure u

/-- `toString` of the name of a type, and what it is applied to. -/
def declText : String × Option String → String
  | (t, none) => s!"({t},None)"
  | (t, some param) => s!"({t},Some({param}))"

/-- `genericFlat`. -/
def genericFlat (pos : Pos) (typeDefs : List (String × FINAL))
    (definedTypes : List (String × Option String)) :
    Except (CompilerFailure CompilationError) (List FINAL) :=
  let f := flatSingle pos typeDefs (definedTypes.map declText) [] none
  List.flatten <$> definedTypes.mapM fun
    | (typeName, none) => f typeName
    | (typeName, some paramName) => do
      let typeConstr ← findGenericType pos typeName
      let typeParam ← f paramName
      let t ← reduce (.create typeParam none)
      pure [typeConstr t]

/-- `handleTypeUnion`; the names are those of types. -/
def handleTypeUnion (types : List String) (f : FINAL) (ctx : CompilerContext) : FINAL :=
  if types.isEmpty then f else .create (types.filterMap ctx.predefType) none

/-! ## 3. Conditions, getters and calls -/

section
variable [FINAL.SetOrder]

/-- `mkIf`. -/
def mkIf (cond : EXPR) (ifTrue ifFalse : EXPR × FINAL) : EXPR × FINAL :=
  (.IF cond ifTrue.1 ifFalse.1, FINAL.findCommonType ifTrue.2 ifFalse.2)

/-- `mkGetter`: every member of the type has the field. -/
def mkGetter (p : Pos) (types : List REAL) (fieldName : String) (expr : EXPR) :
    Except (CompilerFailure CompilationError) (EXPR × FINAL) :=
  let errMsg :=
    match types with
    | [t] => t.name
    | _ => "Union(" ++ "|".intercalate (types.map REAL.name) ++ ")"
  match types.mapM fun t => t.fields.lookup fieldName with
  | none => throw (.left (.FieldNotFound p.start p.end fieldName errMsg))
  | some ts =>
    match TypeInferrer.findCommonType ts with
    | some t => pure (.GETTER expr fieldName, t)
    | none => throw .thrown

/-- `matchFuncOverload`. -/
def matchFuncOverload (p : Pos) (funcName : String) (funcArgs : ℕ)
    (resolvedArgs : List (EXPR × FINAL)) (f : FunctionTypeSignature) :
    Except (CompilerFailure CompilationError) (EXPR × FINAL) := do
  if funcArgs ≠ f.args.length then
    throw (.left (.WrongArgumentsNumber p.start p.end funcName f.args.length funcArgs))
  else
    let typePairs := (resolvedArgs.map Prod.snd).zip (f.args.map Prod.snd)
    match TypeInferrer.infer typePairs with
    | .error (.left e) => throw (.left (.Generic p.start p.end e))
    | .error .thrown => throw .thrown
    | .ok resolvedTypeParams =>
      match TypeInferrer.toFinal resolvedTypeParams f.result with
      | some resultType =>
        pure (.FUNCTION_CALL f.header ((resolvedArgs.zip f.args).map fun x => x.1.1), resultType)
      | none => throw .thrown

/-- The overloads that take the arguments; what throws is not taken for a mismatch. -/
def matchedSigs (p : Pos) (name : String) (compiledArgs : List (EXPR × FINAL)) :
    List FunctionTypeSignature → Except (CompilerFailure CompilationError) (List (EXPR × FINAL))
  | [] => pure []
  | f :: fs =>
    match matchFuncOverload p name compiledArgs.length compiledArgs f with
    | .ok call => List.cons call <$> matchedSigs p name compiledArgs fs
    | .error (.left _) => matchedSigs p name compiledArgs fs
    | .error .thrown => throw .thrown

/-- `compileFunctionCall`, once the arguments are compiled. -/
def resolveCall (p : Pos) (name : String) (signatures : List FunctionTypeSignature)
    (compiledArgs : List (EXPR × FINAL)) :
    Except (CompilerFailure CompilationError) (EXPR × FINAL) :=
  match signatures with
  | [] =>
    throw (.left (.FunctionNotFound p.start p.end name (compiledArgs.map fun a => a.2.name)))
  | [single] => matchFuncOverload p name compiledArgs.length compiledArgs single
  | many => do
    match ← matchedSigs p name compiledArgs many with
    | [] =>
      throw (.left (.OverloadNotFound p.start p.end name (compiledArgs.map fun a => a.2.name)))
    | [call] => pure call
    | _ => throw (.left (.AmbiguousOverloading p.start p.end name signatures))

end

/-! ## 4. The cases of a match -/

/-- `isInst`: is the matched value of the type? -/
def isInst (position : Pos) (refTmp : Expressions.EXPR) (matchType : String) : Expressions.EXPR :=
  .FUNCTION_CALL position (.VALID position "_isInstanceOf")
    [refTmp, .CONST_STRING position (.VALID position matchType)]

/-- The condition of a case: is the matched value of one of the types? -/
def typeIf (position : Pos) (refTmp : Expressions.EXPR) (hType : String) (tTypes : List String) :
    Expressions.EXPR :=
  tTypes.foldl
    (fun other matchType => .BINARY_OP position (isInst position refTmp matchType) .OR_OP other)
    (isInst position refTmp hType)

/-- `blockWithNewVar`: the variable of a case stands for the matched value. -/
def blockWithNewVar (refTmp : Expressions.EXPR) (allowShadowVarName : Option String)
    (mc : MATCH_CASE) : Expressions.EXPR :=
  match mc.newVarName with
  | none => mc.expr
  | some nv =>
    let allowShadowing :=
      match nv with
      | .VALID _ x => decide (allowShadowVarName = some x)
      | .INVALID _ _ => false
    .BLOCK mc.position (.LET mc.position nv refTmp mc.types allowShadowing) mc.expr

/-- `asInstanceOf[PART.VALID]`, which throws on what was not read. -/
def valid : PART String → Except (CompilerFailure CompilationError) String
  | .VALID _ v => pure v
  | .INVALID _ _ => throw .thrown

/-- One case, with what stands for the cases after it. -/
def ifCase (ctx : CompilerContext) (refTmp : Expressions.EXPR) (allowShadowVarName : Option String)
    (exprTypes : List REAL) (mc : MATCH_CASE) (further : Expressions.EXPR) :
    Except (CompilerFailure CompilationError) Expressions.EXPR := do
  if mc.types.isEmpty then pure (blockWithNewVar refTmp allowShadowVarName mc)
  else
    let definedTypes ← mc.types.mapM valid
    let types ← flat mc.position ctx.predefTypes definedTypes (exprTypes.map REAL.name)
      allowShadowVarName
    match types.map FINAL.name with
    | hType :: tTypes =>
      pure (.IF mc.position (typeIf mc.position refTmp hType tTypes)
        (blockWithNewVar refTmp allowShadowVarName mc) further)
    | [] => throw .thrown

/-- The cases, from the last. -/
def ifCases (ctx : CompilerContext) (refTmp : Expressions.EXPR) (allowShadowVarName : Option String)
    (exprTypes : List REAL) (default : Expressions.EXPR) :
    List MATCH_CASE → Except (CompilerFailure CompilationError) Expressions.EXPR
  | [] => pure default
  | mc :: rest => do
    let further ← ifCases ctx refTmp allowShadowVarName exprTypes default rest
    ifCase ctx refTmp allowShadowVarName exprTypes mc further

/-- `mkIfCases`: after the cases, what throws. -/
def mkIfCases (ctx : CompilerContext) (cases : List MATCH_CASE) (refTmp : Expressions.EXPR)
    (allowShadowVarName : Option String) (exprTypes : List REAL) :
    Except (CompilerFailure CompilationError) Expressions.EXPR :=
  match cases with
  | [] => throw .thrown
  | head :: _ =>
    let default := .FUNCTION_CALL head.position (.VALID head.position "throw") []
    ifCases ctx refTmp allowShadowVarName exprTypes default cases

/-! ## 5. The compiler -/

section
variable [FINAL.SetOrder]
  (compileExprWithCtx : Expressions.EXPR → CompileM (CompilerContext × EXPR × FINAL))

def compileExpr (expr : Expressions.EXPR) : CompileM (EXPR × FINAL) := do
  let r ← compileExprWithCtx expr
  pure r.2

/-- The condition of a conditional is a boolean. -/
def compileCond (p : Pos) (condExpr : Expressions.EXPR) : CompileM (EXPR × FINAL) := do
  let c ← compileExpr compileExprWithCtx condExpr
  ensure (.UnexpectedType p.start p.end REAL.BOOLEAN.name c.2.name)
    (c.2.equivalent (.real .BOOLEAN))
  pure c

def compileIf (p : Pos) (condExpr ifTrueExpr ifFalseExpr : Expressions.EXPR) :
    CompileM (EXPR × FINAL) := do
  let cond ← local_ (compileCond compileExprWithCtx p condExpr)
  let ifTrue ← local_ (compileExpr compileExprWithCtx ifTrueExpr)
  let ifFalse ← local_ (compileExpr compileExprWithCtx ifFalseExpr)
  pure (mkIf cond.1 ifTrue ifFalse)

/-- `validateShadowing`. -/
def validateShadowing (p : Pos) (dec : Declaration) : CompileM String := do
  let ctx ← get
  let n ← handlePart dec.name
  ensure (.AlreadyDefined p.start p.end n false) ((ctx.varDefs n).isNone || dec.allowShadowing)
  ensure (.AlreadyDefined p.start p.end n true) (ctx.functionDefs n).isNone
  pure n

/-- `compileLet`: what is declared, its type and its value. -/
def compileLet (p : Pos) (name : PART String) (value : Expressions.EXPR)
    (types : List (PART String)) (allowShadowing : Bool) : CompileM (String × FINAL × EXPR) := do
  let letName ← validateShadowing p (.LET p name value types allowShadowing)
  let compiledLet ← compileExpr compileExprWithCtx value
  let ctx ← get
  let letTypes ← types.mapM handlePart
  ensure (.NonExistingType p.start p.end letName ctx.typeNames)
    (letTypes.all fun t => (ctx.predefType t).isSome)
  pure (letName, handleTypeUnion letTypes compiledLet.2 ctx, compiledLet.1)

/-- `handleGenericPart`. -/
def handleGenericPart (decl : TypeDecl) : CompileM (String × Option String) := do
  let t1 ← handlePart decl.1
  match decl.2 with
  | none => pure (t1, none)
  | some part => do
    let t2 ← handlePart part
    pure (t1, some t2)

/-- The name and the type of an argument of a function. -/
def argType (p : Pos) (funcName : String) (ctx : CompilerContext)
    (arg : PART String × List TypeDecl) : CompileM (String × FINAL) := do
  let name ← handlePart arg.1
  let typeDecls ← arg.2.mapM handleGenericPart
  ensure (.NonExistingType p.start p.end funcName ctx.typeNames)
    (typeDecls.all fun d => (ctx.predefType (d.2.getD d.1)).isSome)
  let types ← lift (genericFlat p ctx.predefTypes typeDecls)
  let union ← lift (reduce (.create types none))
  pure (name, union)

/-- No two parts are the same. -/
def distinctParts : List (PART String) → Bool
  | [] => true
  | part :: rest => rest.all (fun other => !part.same other) && distinctParts rest

/-- `compileFunc`: the function, the type of its body, and the types of its arguments. -/
def compileFunc (p : Pos) (name : PART String) (args : List (PART String × List TypeDecl))
    (expr : Expressions.EXPR) :
    CompileM ((String × List String × EXPR) × FINAL × List (String × FINAL)) := do
  let funcName ← validateShadowing p (.FUNC p name args expr)
  ensure (.BadFunctionSignatureSameArgNames p.start p.end funcName)
    (distinctParts (args.map Prod.fst))
  let ctx ← get
  let argTypes ← args.mapM (argType p funcName ctx)
  let compiledFuncBody ← local_ do
    modify fun c => c.withVars argTypes
    compileExpr compileExprWithCtx expr
  pure ((funcName, argTypes.map Prod.fst, compiledFuncBody.1), compiledFuncBody.2, argTypes)

def compileLetBlock (p : Pos) (name : PART String) (value : Expressions.EXPR)
    (types : List (PART String)) (allowShadowing : Bool) (body : Expressions.EXPR) :
    CompileM (CompilerContext × EXPR × FINAL) := do
  let (letName, letType, letExpr) ← compileLet compileExprWithCtx p name value types allowShadowing
  let compiledBody ← local_ do
    modify fun c => c.withVar letName letType
    compileExprWithCtx body
  pure (compiledBody.1, .LET_BLOCK letName letExpr compiledBody.2.1, compiledBody.2.2)

def compileFuncBlock (p : Pos) (name : PART String) (args : List (PART String × List TypeDecl))
    (expr body : Expressions.EXPR) : CompileM (CompilerContext × EXPR × FINAL) := do
  let (func, compiledFuncBodyType, argTypes) ← compileFunc compileExprWithCtx p name args expr
  let typeSig : FunctionTypeSignature :=
    ⟨.final compiledFuncBodyType, argTypes.map fun a => (a.1, .final a.2), .User func.1⟩
  let compiledBody ← local_ do
    modify fun c => c.withFunction func.1 typeSig
    compileExprWithCtx body
  pure (compiledBody.1, .BLOCK (.FUNC func.1 func.2.1 func.2.2) compiledBody.2.1,
    compiledBody.2.2)

def compileBlock (pos : Pos) (declaration : Declaration) (expr : Expressions.EXPR) :
    CompileM (CompilerContext × EXPR × FINAL) :=
  match declaration with
  | .LET _ name value types allowShadowing =>
    compileLetBlock compileExprWithCtx pos name value types allowShadowing expr
  | .FUNC _ name args body => compileFuncBlock compileExprWithCtx pos name args body expr

def compileGetter (p : Pos) (fieldPart : PART String) (refExpr : Expressions.EXPR) :
    CompileM (CompilerContext × EXPR × FINAL) := do
  let ctx ← get
  let field ← handlePart fieldPart
  let compiledRef ← compileExprWithCtx refExpr
  let result ← lift (mkGetter p compiledRef.2.2.typeList field compiledRef.2.1)
  pure (ctx, result)

def compileFunctionCall (p : Pos) (namePart : PART String) (args : List Expressions.EXPR) :
    CompileM (CompilerContext × EXPR × FINAL) := do
  let ctx ← get
  let name ← handlePart namePart
  let compiledArgs ← args.mapM (compileExpr compileExprWithCtx)
  let result ← lift (resolveCall p name (ctx.functionTypeSignaturesByName name) compiledArgs)
  pure (ctx, result)

def compileRef (p : Pos) (keyPart : PART String) : CompileM (CompilerContext × EXPR × FINAL) := do
  let key ← handlePart keyPart
  let ctx ← get
  match ctx.varDefs key with
  | none => raiseError (.DefNotFound p.start p.end key)
  | some t => pure (ctx, .REF key, t)

/-- The name that the value of a match goes under. -/
def refTmpKey (tmpArgId : ℕ) : String := s!"$match{tmpArgId}"

/-- The variable that a case may shadow: the one that is matched. -/
def shadowable : EXPR → Option String
  | .REF k => some k
  | _ => none

/-- The types of the cases are those of the value, or they are among them and the last case
takes every value. -/
def exhaustive (cases : List MATCH_CASE) (exprTypes matchedTypes : FINAL) : Bool :=
  ((cases.getLast?.map fun mc => mc.types.isEmpty).getD false && exprTypes.ge matchedTypes) ||
    exprTypes.equivalent matchedTypes

def compileMatch (p : Pos) (expr : Expressions.EXPR) (cases : List MATCH_CASE) :
    CompileM (CompilerContext × EXPR × FINAL) := do
  let ctx ← get
  let typedExpr ← compileExpr compileExprWithCtx expr
  match typedExpr.2 with
  | .UNION ts n => do
    let tmpArgId := ctx.tmpArgsIdx
    let refTmp := PART.VALID p (refTmpKey tmpArgId)
    set (ctx.withIdx (tmpArgId + 1))
    let updatedCtx ← get
    let further ← lift (mkIfCases updatedCtx cases (.REF p refTmp) (shadowable typedExpr.1) ts)
    let compiledMatch ← compileLetBlock compileExprWithCtx p refTmp expr [] false further
    let tl ← (cases.flatMap MATCH_CASE.types).mapM handlePart
    let t ← lift (flat p ctx.predefTypes tl [] none)
    let matchedTypes := FINAL.create t none
    ensure (.MatchNotExhaustive p.start p.end ts matchedTypes.typeList)
      (exhaustive cases (.UNION ts n) matchedTypes)
    set (ctx.withIdx tmpArgId)
    pure compiledMatch
  | _ => raiseError (.MatchOnlyUnion p.start p.end)

end

/-- A constant that is too long is an error at its place. -/
def constant (p : Pos) (made : Except String EVALUATED) (t : REAL) :
    CompileM (CompilerContext × EXPR × FINAL) := do
  let ctx ← get
  match made with
  | .ok v => pure (ctx, .evaluated v, .real t)
  | .error e => raiseError (.Generic p.start p.end e)

/-- `compileExprWithCtx`. -/
def compileExprWithCtx [FINAL.SetOrder] :
    ℕ → Expressions.EXPR → CompileM (CompilerContext × EXPR × FINAL)
  | 0, _ => outOfFuel
  | n + 1, expr =>
    match expr with
    | .CONST_LONG p value => constant p (.ok (.CONST_LONG value)) .LONG
    | .CONST_BYTESTR p value => do
      let b ← handlePart value
      constant p (EVALUATED.constBytestr b) .BYTESTR
    | .CONST_STRING p value => do
      let s ← handlePart value
      constant p (EVALUATED.constString s) .STRING
    | .TRUE p => constant p (.ok (.CONST_BOOLEAN true)) .BOOLEAN
    | .FALSE p => constant p (.ok (.CONST_BOOLEAN false)) .BOOLEAN
    | .GETTER p ref field => compileGetter (compileExprWithCtx n) p field ref
    | .BLOCK p dec body => compileBlock (compileExprWithCtx n) p dec body
    | .IF p cond ifTrue ifFalse => do
      let ctx ← get
      let r ← compileIf (compileExprWithCtx n) p cond ifTrue ifFalse
      pure (ctx, r)
    | .REF p key => compileRef p key
    | .FUNCTION_CALL p name args => compileFunctionCall (compileExprWithCtx n) p name args
    | .MATCH p ex cases => compileMatch (compileExprWithCtx n) p ex cases
    | .INVALID p message => raiseError (.Generic p.start p.end message)
    | .BINARY_OP p a op b =>
      match op with
      | .AND_OP => do
        let ctx ← get
        let r ← compileIf (compileExprWithCtx n) p a b (.FALSE p)
        pure (ctx, r)
      | .OR_OP => do
        let ctx ← get
        let r ← compileIf (compileExprWithCtx n) p a (.TRUE p) b
        pure (ctx, r)
      | _ =>
        compileFunctionCall (compileExprWithCtx n) p (.VALID p (Expressions.opsToFunctions op))
          [a, b]

end ExpressionCompiler

/-! ## 6. What has run, and what is left as it was -/

namespace CompileM

variable {α β : Type}

/-- The computation succeeds, with this result and this context. -/
def Returns (m : CompileM α) (c : CompilerContext) (a : α) (c' : CompilerContext) : Prop :=
  (m.run c).run = some (.ok (a, c'))

theorem returns_bind {m : CompileM α} {f : α → CompileM β} {c c'' : CompilerContext} {b : β} :
    Returns (m >>= f) c b c'' ↔ ∃ a c', Returns m c a c' ∧ Returns (f a) c' b c'' := by
  unfold Returns
  rw [StateT.run_bind, ExceptT.run_bind]
  cases h : (m.run c).run with
  | none => simp
  | some r =>
    cases r with
    | error e => simp
    | ok r =>
      obtain ⟨a, c'⟩ := r
      simp only [Option.bind_eq_bind, Option.bind_some, Option.some.injEq, Except.ok.injEq,
        Prod.mk.injEq]
      constructor
      · intro hb
        exact ⟨a, c', ⟨rfl, rfl⟩, hb⟩
      · rintro ⟨_, _, ⟨rfl, rfl⟩, hb⟩
        exact hb

@[simp] theorem returns_pure {a b : α} {c c' : CompilerContext} :
    Returns (pure a) c b c' ↔ a = b ∧ c = c' := by
  simp [Returns]

@[simp] theorem returns_get {c a c' : CompilerContext} : Returns get c a c' ↔ a = c ∧ c' = c := by
  simp [Returns, eq_comm]

@[simp] theorem returns_set {c₁ c c' : CompilerContext} {u : PUnit} :
    Returns (set c₁) c u c' ↔ c' = c₁ := by
  simp [Returns, eq_comm]

@[simp] theorem returns_modify {f : CompilerContext → CompilerContext} {c c' : CompilerContext}
    {u : PUnit} : Returns (modify f) c u c' ↔ c' = f c := by
  simp [Returns, eq_comm]

@[simp] theorem returns_raiseError {e : CompilationError} {c c' : CompilerContext} {a : α} :
    ¬ Returns (raiseError e) c a c' := by
  simp [Returns, raiseError]

@[simp] theorem returns_outOfFuel {c c' : CompilerContext} {a : α} :
    ¬ Returns outOfFuel c a c' := by
  intro h
  cases h

@[simp] theorem returns_lift {ei : Except (CompilerFailure CompilationError) α}
    {c c' : CompilerContext} {a : α} : Returns (lift ei) c a c' ↔ ei = .ok a ∧ c = c' := by
  cases ei with
  | ok b => simp [lift]
  | error e => simp [lift, Returns]

@[simp] theorem returns_ensure {e : CompilationError} {cond : Bool} {c c' : CompilerContext}
    {u : Unit} : Returns (ensure e cond) c u c' ↔ cond = true ∧ c = c' := by
  cases cond with
  | true => simp [ensure]
  | false => simp [ensure]

@[simp] theorem returns_local {m : CompileM α} {c c' : CompilerContext} {a : α} :
    Returns (local_ m) c a c' ↔ c' = c ∧ ∃ c'', Returns m c a c'' := by
  have hlocal : Returns (local_ m) c a c' ↔
      ∃ r : α × CompilerContext, (m.run c).run = some (.ok r) ∧ r.1 = a ∧ c' = c := by
    unfold Returns local_
    rw [StateT.run, ExceptT.run_bind]
    change (Option.bind (m.run c).run _) = _ ↔ _
    cases h : (m.run c).run with
    | none => simp
    | some r =>
      cases r with
      | error e => simp
      | ok r => simp [ExceptT.run_pure, eq_comm]
  rw [hlocal]
  constructor
  · rintro ⟨⟨_, c''⟩, hm, rfl, rfl⟩
    exact ⟨rfl, c'', hm⟩
  · rintro ⟨rfl, c'', hm⟩
    exact ⟨(a, c''), hm, rfl, rfl⟩

theorem returns_handlePart {part : PART α} {c c' : CompilerContext} {a : α} :
    Returns (ExpressionCompiler.handlePart part) c a c' ↔ (∃ p, part = .VALID p a) ∧ c = c' := by
  cases part with
  | VALID p v => simp [ExpressionCompiler.handlePart]
  | INVALID p m => simp [ExpressionCompiler.handlePart]

theorem returns_get_bind {f : CompilerContext → CompileM β} {c c' : CompilerContext} {b : β} :
    Returns (get >>= f) c b c' ↔ Returns (f c) c b c' := by
  rw [returns_bind]
  constructor
  · rintro ⟨a, c₁, hget, hf⟩
    obtain ⟨ha, hc₁⟩ := returns_get.mp hget
    rwa [ha, hc₁] at hf
  · intro hf
    exact ⟨c, c, returns_get.mpr ⟨rfl, rfl⟩, hf⟩

theorem returns_valid_bind {p : Pos} {x : α} {f : α → CompileM β} {c c' : CompilerContext}
    {b : β} : Returns (ExpressionCompiler.handlePart (.VALID p x) >>= f) c b c' ↔
      Returns (f x) c b c' := by
  rw [ExpressionCompiler.handlePart, pure_bind]

theorem returns_mapM_cons {f : α → CompileM β} {a : α} {as : List α} {c c' : CompilerContext}
    {l : List β} : Returns ((a :: as).mapM f) c l c' ↔
      ∃ b c₁ bs, Returns (f a) c b c₁ ∧ Returns (as.mapM f) c₁ bs c' ∧ l = b :: bs := by
  rw [List.mapM_cons]
  simp only [returns_bind, returns_pure]
  constructor
  · rintro ⟨b, c₁, hb, bs, c₂, hbs, rfl, rfl⟩
    exact ⟨b, c₁, bs, hb, hbs, rfl⟩
  · rintro ⟨b, c₁, bs, hb, hbs, rfl⟩
    exact ⟨b, c₁, hb, bs, c', hbs, rfl, rfl⟩

/-- Parts that could be read are read as they are. -/
theorem returns_mapM_handlePart {parts : List (PART α)} {c c' : CompilerContext} {l : List α}
    (h : Returns (parts.mapM ExpressionCompiler.handlePart) c l c') :
    l = parts.filterMap PART.toOption := by
  induction parts generalizing l c with
  | nil => exact (returns_pure.mp h).1.symm
  | cons part parts ih =>
    obtain ⟨b, c₁, bs, hpart, hparts, rfl⟩ := returns_mapM_cons.mp h
    obtain ⟨⟨q, rfl⟩, -⟩ := returns_handlePart.mp hpart
    rw [ih hparts]
    rfl

/-- The computation leaves the context as it is. -/
def Keeps (m : CompileM α) : Prop := ∀ c a c', Returns m c a c' → c' = c

theorem Keeps.bind {m : CompileM α} {f : α → CompileM β} (hm : Keeps m)
    (hf : ∀ a, Keeps (f a)) : Keeps (m >>= f) := by
  intro c b c'' h
  obtain ⟨a, c', ha, hb⟩ := returns_bind.mp h
  rw [hf a c' b c'' hb, hm c a c' ha]

theorem keeps_pure (a : α) : Keeps (pure a) := by
  intro c b c' h
  exact (returns_pure.mp h).2.symm

theorem keeps_get : Keeps (get : CompileM CompilerContext) := by
  intro c a c' h
  exact (returns_get.mp h).2

theorem keeps_raiseError (e : CompilationError) : Keeps (raiseError e : CompileM α) :=
  fun _ _ _ h => absurd h returns_raiseError

theorem keeps_lift (ei : Except (CompilerFailure CompilationError) α) : Keeps (lift ei) := by
  intro c a c' h
  exact (returns_lift.mp h).2.symm

theorem keeps_ensure (e : CompilationError) (cond : Bool) : Keeps (ensure e cond) := by
  intro c u c' h
  exact (returns_ensure.mp h).2.symm

theorem keeps_local (m : CompileM α) : Keeps (local_ m) := by
  intro c a c' h
  exact (returns_local.mp h).1

theorem keeps_handlePart (part : PART α) : Keeps (ExpressionCompiler.handlePart part) := by
  intro c a c' h
  exact (returns_handlePart.mp h).2.symm

theorem keeps_mapM {f : α → CompileM β} (hf : ∀ a, Keeps (f a)) (as : List α) :
    Keeps (as.mapM f) := by
  induction as with
  | nil => exact keeps_pure _
  | cons a as ih =>
    rw [List.mapM_cons]
    exact (hf a).bind fun b => ih.bind fun bs => keeps_pure _

end CompileM

namespace ExpressionCompiler

open CompileM

theorem keeps_handleGenericPart (decl : TypeDecl) : Keeps (handleGenericPart decl) := by
  refine (keeps_handlePart _).bind fun t1 => ?_
  cases decl.2 with
  | none => exact keeps_pure _
  | some part => exact (keeps_handlePart part).bind fun _ => keeps_pure _

theorem keeps_argType (p : Pos) (funcName : String) (ctx : CompilerContext)
    (arg : PART String × List TypeDecl) : Keeps (argType p funcName ctx arg) :=
  (keeps_handlePart _).bind fun _ => (keeps_mapM keeps_handleGenericPart _).bind fun _ =>
    (keeps_ensure _ _).bind fun _ => (keeps_lift _).bind fun _ => (keeps_lift _).bind fun _ =>
      keeps_pure _

theorem keeps_validateShadowing (p : Pos) (dec : Declaration) : Keeps (validateShadowing p dec) :=
  keeps_get.bind fun _ => (keeps_handlePart _).bind fun _ => (keeps_ensure _ _).bind fun _ =>
    (keeps_ensure _ _).bind fun _ => keeps_pure _

theorem keeps_compileRef (p : Pos) (key : PART String) : Keeps (compileRef p key) := by
  refine (keeps_handlePart key).bind fun k => keeps_get.bind fun ctx => ?_
  cases ctx.varDefs k with
  | none => exact keeps_raiseError _
  | some t => exact keeps_pure _

theorem keeps_constant (p : Pos) (made : Except String EVALUATED) (t : REAL) :
    Keeps (constant p made t) := by
  refine keeps_get.bind fun ctx => ?_
  cases made with
  | ok v => exact keeps_pure _
  | error e => exact keeps_raiseError _

section
variable {rec : Expressions.EXPR → CompileM (CompilerContext × EXPR × FINAL)}

theorem keeps_compileFunc (p : Pos) (name : PART String)
    (args : List (PART String × List TypeDecl)) (expr : Expressions.EXPR) :
    Keeps (compileFunc rec p name args expr) :=
  (keeps_validateShadowing p _).bind fun _ => (keeps_ensure _ _).bind fun _ =>
    keeps_get.bind fun _ => (keeps_mapM (keeps_argType p _ _) args).bind fun _ =>
      (keeps_local _).bind fun _ => keeps_pure _

theorem keeps_compileIf [FINAL.SetOrder] (p : Pos)
    (condExpr ifTrueExpr ifFalseExpr : Expressions.EXPR) :
    Keeps (compileIf rec p condExpr ifTrueExpr ifFalseExpr) :=
  (keeps_local _).bind fun _ => (keeps_local _).bind fun _ => (keeps_local _).bind fun _ =>
    keeps_pure _

variable (hrec : ∀ e, Keeps (rec e))

include hrec

theorem keeps_compileExpr (expr : Expressions.EXPR) : Keeps (compileExpr rec expr) :=
  (hrec expr).bind fun _ => keeps_pure _

theorem keeps_compileLet (p : Pos) (name : PART String) (value : Expressions.EXPR)
    (types : List (PART String)) (allowShadowing : Bool) :
    Keeps (compileLet rec p name value types allowShadowing) :=
  (keeps_validateShadowing p _).bind fun _ => (keeps_compileExpr hrec value).bind fun _ =>
    keeps_get.bind fun _ => (keeps_mapM keeps_handlePart types).bind fun _ =>
      (keeps_ensure _ _).bind fun _ => keeps_pure _

theorem keeps_compileLetBlock (p : Pos) (name : PART String) (value : Expressions.EXPR)
    (types : List (PART String)) (allowShadowing : Bool) (body : Expressions.EXPR) :
    Keeps (compileLetBlock rec p name value types allowShadowing body) :=
  (keeps_compileLet hrec p name value types allowShadowing).bind fun _ =>
    (keeps_local _).bind fun _ => keeps_pure _

theorem keeps_compileBlock (p : Pos) (dec : Declaration) (body : Expressions.EXPR) :
    Keeps (compileBlock rec p dec body) := by
  cases dec with
  | LET _ name value types allowShadowing =>
    exact keeps_compileLetBlock hrec p name value types allowShadowing body
  | FUNC _ name args expr =>
    exact (keeps_compileFunc p name args expr).bind fun _ => (keeps_local _).bind fun _ =>
      keeps_pure _

theorem keeps_compileGetter [FINAL.SetOrder] (p : Pos) (field : PART String)
    (ref : Expressions.EXPR) :
    Keeps (compileGetter rec p field ref) :=
  keeps_get.bind fun _ => (keeps_handlePart _).bind fun _ => (hrec ref).bind fun _ =>
    (keeps_lift _).bind fun _ => keeps_pure _

theorem keeps_compileFunctionCall [FINAL.SetOrder] (p : Pos) (name : PART String)
    (args : List Expressions.EXPR) : Keeps (compileFunctionCall rec p name args) :=
  keeps_get.bind fun _ => (keeps_handlePart _).bind fun _ =>
    (keeps_mapM (keeps_compileExpr hrec) args).bind fun _ => (keeps_lift _).bind fun _ =>
      keeps_pure _

/-! ## 7. What a match has come to -/

/-- A declaration has a name of its own, unless it may take another's. -/
theorem returns_compileLet {p : Pos} {name : PART String} {value : Expressions.EXPR}
    {types : List (PART String)} {allowShadowing : Bool} {c c' : CompilerContext} {x : String}
    {t : FINAL} {e : EXPR}
    (h : Returns (compileLet rec p name value types allowShadowing) c (x, t, e) c') :
    (∃ q, name = .VALID q x) ∧ ((c.varDefs x).isNone || allowShadowing) = true ∧
      ∃ t₀, Returns (compileExpr rec value) c (e, t₀) c ∧
        t = handleTypeUnion (types.filterMap PART.toOption) t₀ c := by
  unfold compileLet at h
  obtain ⟨letName, c₁, hname, hrest⟩ := returns_bind.mp h
  obtain ⟨⟨e₀, t₀⟩, c₂, hvalue, hafterValue⟩ := returns_bind.mp hrest
  obtain ⟨ctx, c₃, hctx, hafterGet⟩ := returns_bind.mp hafterValue
  obtain ⟨names, c₄, hnames, hafterNames⟩ := returns_bind.mp hafterGet
  obtain ⟨_, c₅, hensure, hpure⟩ := returns_bind.mp hafterNames
  -- none of these steps changes the context
  have h₁ : c₁ = c := keeps_validateShadowing p _ _ _ _ hname
  have h₂ : c₂ = c₁ := keeps_compileExpr hrec value _ _ _ hvalue
  have h₃ : ctx = c₂ := (returns_get.mp hctx).1
  subst h₁ h₂ h₃
  have hresult := (returns_pure.mp hpure).1
  simp only [Prod.mk.injEq] at hresult
  obtain ⟨rfl, ht, rfl⟩ := hresult
  rw [returns_mapM_handlePart hnames] at ht
  unfold validateShadowing at hname
  simp only [returns_bind, returns_get, returns_handlePart, returns_ensure, returns_pure,
    Declaration.name, Declaration.allowShadowing] at hname
  obtain ⟨_, _, ⟨rfl, rfl⟩, x, _, ⟨hpart, rfl⟩, _, _, ⟨hshadow, rfl⟩, _, _, -, rfl, -⟩ := hname
  exact ⟨hpart, hshadow, t₀, hvalue, ht.symm⟩

theorem returns_compileLetBlock {p : Pos} {name : PART String} {value : Expressions.EXPR}
    {types : List (PART String)} {allowShadowing : Bool} {body : Expressions.EXPR}
    {c c₁ c' : CompilerContext} {code : EXPR} {t : FINAL}
    (h : Returns (compileLetBlock rec p name value types allowShadowing body) c (c₁, code, t) c') :
    ∃ x letType e bodyCode c₂, Returns (compileLet rec p name value types allowShadowing) c
        (x, letType, e) c ∧
      Returns (rec body) (c.withVar x letType) (c₁, bodyCode, t) c₂ ∧
      code = .LET_BLOCK x e bodyCode := by
  unfold compileLetBlock at h
  obtain ⟨⟨x, letType, e⟩, c₀, hlet, hrest⟩ := returns_bind.mp h
  have h₀ : c₀ = c := keeps_compileLet hrec p name value types allowShadowing _ _ _ hlet
  subst h₀
  simp only [returns_bind, returns_local, returns_modify, returns_pure] at hrest
  obtain ⟨⟨c₂, bodyCode, t'⟩, _, ⟨-, c₃, _, _, rfl, hbody⟩, hresult, -⟩ := hrest
  simp only [Prod.mk.injEq] at hresult
  obtain ⟨rfl, rfl, rfl⟩ := hresult
  exact ⟨x, letType, e, bodyCode, c₃, hlet, hbody, rfl⟩

/-- What a match that is accepted has come to. -/
structure Accepted (rec : Expressions.EXPR → CompileM (CompilerContext × EXPR × FINAL)) (p : Pos)
    (expr : Expressions.EXPR) (cases : List MATCH_CASE) (c c₁ : CompilerContext) (code : EXPR)
    (t : FINAL) where
  /-- The value as it is compiled to be typed. -/
  typed : EXPR
  members : List REAL
  unionName : Option String
  compiled_typed : Returns (compileExpr rec expr) c (typed, .UNION members unionName) c
  further : Expressions.EXPR
  mkIfCases_eq : mkIfCases (c.withIdx (c.tmpArgsIdx + 1)) cases
    (.REF p (.VALID p (refTmpKey c.tmpArgsIdx))) (shadowable typed) members = .ok further
  /-- The value as it stands in the code. -/
  scrutinee : EXPR
  scrutineeType : FINAL
  compiled_scrutinee : Returns (compileExpr rec expr) (c.withIdx (c.tmpArgsIdx + 1))
    (scrutinee, scrutineeType) (c.withIdx (c.tmpArgsIdx + 1))
  fresh : c.varDefs (refTmpKey c.tmpArgsIdx) = none
  body : EXPR
  c₂ : CompilerContext
  compiled_body : Returns (rec further)
    ((c.withIdx (c.tmpArgsIdx + 1)).withVar (refTmpKey c.tmpArgsIdx) scrutineeType)
    (c₁, body, t) c₂
  code_eq : code = .LET_BLOCK (refTmpKey c.tmpArgsIdx) scrutinee body
  matched : List FINAL
  flat_eq : flat p c.predefTypes ((cases.flatMap MATCH_CASE.types).filterMap PART.toOption) []
    none = .ok matched
  exhaustive_eq : exhaustive cases (.UNION members unionName) (.create matched none) = true

theorem returns_compileMatch {p : Pos} {expr : Expressions.EXPR} {cases : List MATCH_CASE}
    {c c₁ c' : CompilerContext} {code : EXPR} {t : FINAL}
    (h : Returns (compileMatch rec p expr cases) c (c₁, code, t) c') :
    c' = c ∧ Nonempty (Accepted rec p expr cases c c₁ code t) := by
  unfold compileMatch at h
  obtain ⟨ctx, c₀, hctx, hrest⟩ := returns_bind.mp h
  obtain ⟨⟨typed, typedType⟩, c₃, htyped, hmatch⟩ := returns_bind.mp hrest
  have hctx' := returns_get.mp hctx
  have h₃ : c₃ = c₀ := keeps_compileExpr hrec expr _ _ _ htyped
  rw [hctx'.2] at h₃ htyped
  rw [hctx'.1, h₃] at hmatch
  rw [h₃] at htyped
  cases typedType with
  | NOTHING => exact absurd hmatch returns_raiseError
  | real r => exact absurd hmatch returns_raiseError
  | UNION members unionName =>
    obtain ⟨_, c₄, hset, hafterSet⟩ := returns_bind.mp hmatch
    obtain ⟨updatedCtx, c₅, hget, hafterGet⟩ := returns_bind.mp hafterSet
    obtain ⟨further, c₆, hfurther, hafterCases⟩ := returns_bind.mp hafterGet
    obtain ⟨⟨c₁', code', t'⟩, c₇, hlet, hafterLet⟩ := returns_bind.mp hafterCases
    obtain rfl := returns_set.mp hset
    obtain ⟨rfl, rfl⟩ := returns_get.mp hget
    obtain ⟨hcases, rfl⟩ := returns_lift.mp hfurther
    obtain ⟨tl, c₈, hparts, hafterParts⟩ := returns_bind.mp hafterLet
    rw [returns_mapM_handlePart hparts] at hafterParts
    simp only [returns_bind, returns_lift, returns_ensure, returns_set, returns_pure,
      Prod.mk.injEq] at hafterParts
    obtain ⟨matched, _, ⟨hflat, -⟩, _, _, ⟨hexhaustive, -⟩, _, _, rfl, ⟨rfl, rfl, rfl⟩, rfl⟩ :=
      hafterParts
    obtain ⟨x, letType, e, bodyCode, c₂, hcompileLet, hbody, hcode⟩ :=
      returns_compileLetBlock hrec hlet
    obtain ⟨⟨q, hq⟩, hshadow, t₀, hvalue, hletType⟩ := returns_compileLet hrec hcompileLet
    obtain rfl := (PART.VALID.inj hq).2
    -- no types are declared with it, so its type is the one it has
    rw [show letType = t₀ from hletType] at hbody
    have hfresh : c.varDefs (refTmpKey c.tmpArgsIdx) = none := by
      rw [Bool.or_false, Option.isNone_iff_eq_none] at hshadow
      exact hshadow
    exact ⟨rfl, ⟨⟨typed, members, unionName, htyped, further, hcases, e, t₀, hvalue, hfresh,
      bodyCode, c₂, hbody, hcode, matched, hflat, hexhaustive⟩⟩⟩

theorem keeps_compileMatch (p : Pos) (expr : Expressions.EXPR) (cases : List MATCH_CASE) :
    Keeps (compileMatch rec p expr cases) :=
  fun _ _ _ h => (returns_compileMatch hrec h).1

end

/-- **Whatever is compiled, the context is the same afterwards.** -/
theorem keeps_compileExprWithCtx [FINAL.SetOrder] (n : ℕ) (expr : Expressions.EXPR) :
    Keeps (compileExprWithCtx n expr) := by
  induction n generalizing expr with
  | zero => exact fun _ _ _ h => absurd h returns_outOfFuel
  | succ n ih =>
    have hif (p : Pos) (a b d : Expressions.EXPR) : Keeps (do
        let ctx ← get
        let r ← compileIf (compileExprWithCtx n) p a b d
        pure (ctx, r)) :=
      keeps_get.bind fun _ => (keeps_compileIf p a b d).bind fun _ => keeps_pure _
    cases expr with
    | CONST_LONG p value => exact keeps_constant p (.ok (.CONST_LONG value)) .LONG
    | CONST_BYTESTR p value => exact (keeps_handlePart value).bind fun _ => keeps_constant p _ _
    | CONST_STRING p value => exact (keeps_handlePart value).bind fun _ => keeps_constant p _ _
    | TRUE p => exact keeps_constant p (.ok (.CONST_BOOLEAN true)) .BOOLEAN
    | FALSE p => exact keeps_constant p (.ok (.CONST_BOOLEAN false)) .BOOLEAN
    | GETTER p ref field => exact keeps_compileGetter ih p field ref
    | BLOCK p dec body => exact keeps_compileBlock ih p dec body
    | IF p cond ifTrue ifFalse => exact hif p cond ifTrue ifFalse
    | REF p key => exact keeps_compileRef p key
    | FUNCTION_CALL p name args => exact keeps_compileFunctionCall ih p name args
    | MATCH p ex cases => exact keeps_compileMatch ih p ex cases
    | INVALID p message => exact keeps_raiseError _
    | BINARY_OP p a op b =>
      by_cases hand : op = .AND_OP
      · rw [hand]
        exact hif p a b (.FALSE p)
      · by_cases hor : op = .OR_OP
        · rw [hor]
          exact hif p a (.TRUE p) b
        · rw [compileExprWithCtx]
          · exact keeps_compileFunctionCall ih p _ _
          · exact hand
          · exact hor

end ExpressionCompiler

end Lang

end WavesNode
