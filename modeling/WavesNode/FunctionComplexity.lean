/-
What a call of a contract is charged, against what is run.

A contract is estimated function by function, each in a block of its own with the
contract's declarations around it, and the estimates are kept in a map by the functions'
names. What a call is charged is looked up there. What a call runs is found by the
evaluator, which takes the first callable function of the name called.

The compiler lets no two annotated functions have one name, and nothing else does: the
reader takes a contract as it comes. Then the map has the last function's estimate, the
verifier's after all others, and the evaluator has the first function.
-/
import WavesNode.ScriptSpelling

set_option autoImplicit false

namespace WavesNode

/-- `funcName`. -/
def FunctionHeader.funcName : FunctionHeader → String
  | .Native name => toString name.toInt
  | .User internalName => internalName

namespace Lang

/-! ## 1. Estimators -/

/-- `ScriptEstimator`: declared names, the costs of functions, and what to estimate. -/
abbrev ScriptEstimator :=
  Finset String → FiniteMap FunctionHeader Long → EXPR → Except String Long

namespace ScriptEstimatorV3

structure EstimatorContext where
  funcs : FiniteMap FunctionHeader Long
  usedRefs : Finset String

abbrev EvalM := StateT EstimatorContext (Except String)

def evalHoldingFuncs (expr : EvalM Long) : EvalM Long := do
  let startCtx ← get
  let cost ← expr
  modify fun ctx => { ctx with funcs := startCtx.funcs }
  pure cost

/-- A declared value costs something only if the block refers to it. -/
def evalLetBlock (name : String) (value inner : EvalM Long) : EvalM Long := do
  let startCtx ← get
  let overlap := name ∈ startCtx.usedRefs
  modify fun ctx => { ctx with usedRefs := ctx.usedRefs.erase name }
  let nextCost ← inner
  let ctx ← get
  let letCost ← if name ∈ ctx.usedRefs then evalHoldingFuncs value else pure 0
  modify fun ctx =>
    { ctx with usedRefs := if overlap then insert name ctx.usedRefs else ctx.usedRefs.erase name }
  pure (nextCost + letCost)

def evalFuncBlock (name : String) (body inner : EvalM Long) : EvalM Long := do
  let funcCost ← evalHoldingFuncs body
  modify fun ctx => { ctx with funcs := ctx.funcs.insert (.User name) funcCost }
  inner

def evalIF (cond ifTrue ifFalse : EvalM Long) : EvalM Long := do
  let cond ← evalHoldingFuncs cond
  let right ← evalHoldingFuncs ifTrue
  let left ← evalHoldingFuncs ifFalse
  pure (cond + (if right ≤ left then left else right) + 1)

def markRef (key : String) : EvalM Long := do
  modify fun ctx => { ctx with usedRefs := insert key ctx.usedRefs }
  pure 1

def evalFuncCall (header : FunctionHeader) (args : EvalM (List Long)) : EvalM Long := do
  let ctx ← get
  match ctx.funcs.get? header with
  | none => throw s!"function '{header.funcName}' not found"
  | some bodyCost =>
    let argsCost ← args
    pure (argsCost.foldl (· + ·) 0 + bodyCost)

mutual

def evalExpr : EXPR → EvalM Long
  | .evaluated _ => pure 1
  | .LET_BLOCK name value inner => evalLetBlock name (evalExpr value) (evalExpr inner)
  | .BLOCK dec inner => evalBlock dec (evalExpr inner)
  | .REF key => markRef key
  | .IF cond ifTrue ifFalse => evalIF (evalExpr cond) (evalExpr ifTrue) (evalExpr ifFalse)
  | .GETTER expr _ => do
    let cost ← evalExpr expr
    pure (cost + 1)
  | .FUNCTION_CALL header args => evalFuncCall header (evalArgs args)

def evalBlock : DECLARATION → EvalM Long → EvalM Long
  | .LET name value, inner => evalLetBlock name (evalExpr value) inner
  | .FUNC name _ body, inner => evalFuncBlock name (evalExpr body) inner

/-- `args.traverse(evalHoldingFuncs)`. -/
def evalArgs : List EXPR → EvalM (List Long)
  | [] => pure []
  | arg :: args => do
    let cost ← evalHoldingFuncs (evalExpr arg)
    let costs ← evalArgs args
    pure (cost :: costs)

end

end ScriptEstimatorV3

/-- `ScriptEstimatorV3`. -/
def scriptEstimatorV3 : ScriptEstimator := fun _ funcs expr =>
  ((ScriptEstimatorV3.evalExpr expr).run ⟨funcs, ∅⟩).map Prod.fst

/-- What the library of each version declares to each kind of script. -/
class LibContexts where
  varNames : StdLibVersion → ContentType → Finset String
  functionCosts : StdLibVersion → ContentType → FiniteMap FunctionHeader Long

def MaxComplexityByVersion : StdLibVersion → Long
  | .V1 | .V2 => 2000
  | .V3 | .V4 => 4000

/-! ## 2. What a script is charged -/

def TRUE : EXPR := .evaluated (.CONST_BOOLEAN true)

def DEFAULT_FUNC_NAME : String := "default"

/-- A block in the context of declarations. -/
def withDecls (decs : List DECLARATION) (block : EXPR) : EXPR :=
  decs.foldr EXPR.BLOCK block

namespace ContractScript

def constructExprFromFuncAndContext (dec : List DECLARATION) (annotationArgName : String)
    (funcExpr : FUNC) : EXPR :=
  withDecls dec
    (.BLOCK (.LET annotationArgName TRUE)
      (.BLOCK funcExpr.declaration
        (.FUNCTION_CALL (.User funcExpr.name) (List.replicate funcExpr.args.length TRUE))))

variable [DAppMetaSerializer] [LibContexts]

/-- The estimate of one annotated function in the context of the contract. -/
def estimateFunction (version : StdLibVersion) (contract : DApp) (estimator : ScriptEstimator)
    (func : AnnotatedFunction) : Except String Long :=
  estimator (LibContexts.varNames version .DApp) (LibContexts.functionCosts version .DApp)
    (constructExprFromFuncAndContext contract.decs func.invocationArgName func.u)

def estimateComplexityByFunction (version : StdLibVersion) (contract : DApp)
    (estimator : ScriptEstimator) : Except String (List (String × Long)) :=
  (contract.callableFuncs ++ contract.verifierFuncOpt.toList).mapM fun func => do
    let cost ← estimateFunction version contract estimator func
    pure (func.u.name, cost)

/-- `maximumOption(_._2 compareTo _._2)`. -/
def maximum (cbf : List (String × Long)) : Option (String × Long) :=
  cbf.foldl (fun max m =>
    match max with
    | none => some m
    | some x => some (if m.2 < x.2 then x else m)) none

def estimateComplexity (version : StdLibVersion) (contract : DApp) (estimator : ScriptEstimator) :
    Except String (Long × FiniteMap String Long) := do
  let cbf ← estimateComplexityByFunction version contract estimator
  let max := maximum cbf
  match max with
  | none => pure ()
  | some m =>
    if m.2 ≤ MaxComplexityByVersion version then pure ()
    else throw s!"Contract function ({m.1}) is too complex: {m.2.toInt} > {(MaxComplexityByVersion version).toInt}"
  pure ((max.map Prod.snd).getD 0, FiniteMap.ofList cbf)

def limitFreeComplexity (version : StdLibVersion) (contract : DApp) (estimator : ScriptEstimator) :
    Except String (Long × FiniteMap String Long) := do
  let cbf ← estimateComplexityByFunction version contract estimator
  pure (((maximum cbf).map Prod.snd).getD 0, FiniteMap.ofList cbf)

end ContractScript

namespace ExprScript

variable [LibContexts]

def limitFreeEstimate (expr : EXPR) (version : StdLibVersion) (estimator : ScriptEstimator) :
    Except String Long :=
  estimator (LibContexts.varNames version .Expression)
    (LibContexts.functionCosts version .Expression) expr

def estimate (expr : EXPR) (version : StdLibVersion) (estimator : ScriptEstimator) :
    Except String Long := do
  let scriptComplexity ← limitFreeEstimate expr version estimator
  if scriptComplexity ≤ MaxComplexityByVersion version then pure scriptComplexity
  else throw s!"Script is too complex: {scriptComplexity.toInt} > {(MaxComplexityByVersion version).toInt}"

end ExprScript

section

variable [DAppMetaSerializer] [LibContexts]

namespace Script

def complexityInfo (s : Script) (estimator : ScriptEstimator) :
    Except String (Long × FiniteMap String Long) :=
  match s with
  | .ExprScript version expr => (ExprScript.estimate expr version estimator).map fun c => (c, ∅)
  | .ContractScript version contract =>
    ContractScript.estimateComplexity version contract estimator

def limitFreeComplexity (s : Script) (estimator : ScriptEstimator) :
    Except String (Long × FiniteMap String Long) :=
  match s with
  | .ExprScript version expr =>
    (ExprScript.limitFreeEstimate expr version estimator).map fun c => (c, ∅)
  | .ContractScript version contract =>
    ContractScript.limitFreeComplexity version contract estimator

end Script

/-- `FUNCTION_CALL` of an invocation. -/
structure FunctionCall where
  function : FunctionHeader
  args : List EXPR

namespace DiffsCommon

omit [LibContexts] in
def calcVerifierComplexity (script : Script) (complexity : Long × FiniteMap String Long) : Long :=
  let (totalComplexity, cm) := complexity
  match script with
  | .ContractScript _ ⟨_, _, _, some vf⟩ => cm.getOrElse vf.u.name totalComplexity
  | _ => totalComplexity

def verifierComplexity (script : Script) (estimator : ScriptEstimator) : Except String Long :=
  (script.complexityInfo estimator).map (calcVerifierComplexity script)

omit [LibContexts] in
def calcFunctionComplexity (script : Script) (maybeCall : Option FunctionCall)
    (complexity : Long × FiniteMap String Long) : Long :=
  let (totalComplexity, cm) := complexity
  match maybeCall with
  | some call => cm.getOrElse call.function.funcName totalComplexity
  | none =>
    match script with
    | .ContractScript _ contract =>
      ((contract.callableFuncs.find? fun f => f.u.name = DEFAULT_FUNC_NAME ∧ f.u.args.isEmpty).bind
        fun f => cm.get? f.u.name).getD totalComplexity
    | .ExprScript _ _ => totalComplexity

def functionComplexity (script : Script) (estimator : ScriptEstimator)
    (maybeCall : Option FunctionCall) : Except String Long :=
  (script.complexityInfo estimator).map (calcFunctionComplexity script maybeCall)

def limitFreeComplexity (script : Script) (estimator : ScriptEstimator)
    (maybeCall : Option FunctionCall) : Except String Long :=
  (script.limitFreeComplexity estimator).map (calcFunctionComplexity script maybeCall)

end DiffsCommon

/-! ## 3. What a call runs -/

/-- `InvokeScriptTransaction.funcCall`: a call that is left out is one of the default
function. -/
def funcCall (maybeCall : Option FunctionCall) : FunctionCall :=
  maybeCall.getD ⟨.User DEFAULT_FUNC_NAME, []⟩

namespace ContractEvaluator

omit [LibContexts]

/-- The callable function that `eval` runs for a call, or why it runs none. -/
def callable (c : DApp) (call : FunctionCall) : Except String AnnotatedFunction :=
  let functionName := call.function.funcName
  match c.callableFuncs.find? fun f => f.u.name = functionName with
  | none =>
    let otherFuncs := c.decs.filterMap fun d =>
      match d with
      | .FUNC name _ _ => some name
      | .LET _ _ => none
    if functionName ∈ otherFuncs then
      .error s!"function '{functionName} exists in the script but is not marked as @Callable, therefore cannot not be invoked"
    else .error s!"@Callable function '{functionName}' doesn't exist in the script"
  | some f =>
    let takingArgsNumber := f.u.args.length
    let passedArgsNumber := call.args.length
    if takingArgsNumber = passedArgsNumber then .ok f
    else
      .error s!"function '{functionName} takes {takingArgsNumber} args but {passedArgsNumber} were(was) given"

/-- `eval`: the expression that is evaluated, `invocation` being what `buildInvocation`
makes of the call. -/
def eval (c : DApp) (call : FunctionCall) (invocation : EVALUATED) : Except String EXPR := do
  let f ← callable c call
  pure (withDecls c.decs
    (.BLOCK (.LET f.invocationArgName (.evaluated invocation))
      (.BLOCK f.u.declaration (.FUNCTION_CALL call.function call.args))))

/-- `verify`: the expression that is evaluated on a transaction, an order or a transfer. -/
def verify (decls : List DECLARATION) (v : AnnotatedFunction) (entity : EVALUATED) : EXPR :=
  withDecls decls
    (.BLOCK (.LET v.invocationArgName (.evaluated entity))
      (.BLOCK v.u.declaration (.FUNCTION_CALL (.User v.u.name) [.evaluated entity])))

end ContractEvaluator

/-! ## 4. The estimate that is looked up -/

/-- The functions in the order of their estimates: the verifier is the last. -/
def DApp.annotatedFuncs (c : DApp) : List AnnotatedFunction :=
  c.callableFuncs ++ c.verifierFuncOpt.toList

/-- The last of the functions of a name. -/
def DApp.lastNamed (c : DApp) (name : String) : Option AnnotatedFunction :=
  (c.annotatedFuncs.filter fun f => f.u.name = name).getLast?

section Lookup

variable {version : StdLibVersion} {contract : DApp} {estimator : ScriptEstimator}

omit [DAppMetaSerializer] [LibContexts] in
/-- A later binding replaces an earlier one: what is bound under a name comes of the last
of those that have it. -/
theorem get?_ofList_mapM {α : Type} (name : α → String) (cost : α → Except String Long)
    {l : List α} {cbf : List (String × Long)}
    (h : (l.mapM fun a => do let c ← cost a; pure (name a, c)) = .ok cbf) (key : String) {a : α}
    (ha : (l.filter fun a => name a = key).getLast? = some a) :
    ∃ c, cost a = .ok c ∧ (FiniteMap.ofList cbf).get? key = some c := by
  induction l using List.reverseRecOn generalizing cbf with
  | nil => cases ha
  | append_singleton rest x ih =>
    rw [List.mapM_append] at h
    cases hrest : rest.mapM fun a => do let c ← cost a; pure (name a, c) with
    | error e =>
      rw [hrest] at h
      cases h
    | ok first =>
      cases hx : cost x with
      | error e =>
        rw [hrest] at h
        simp [hx, bind, Except.bind] at h
      | ok c =>
        rw [hrest] at h
        have hcbf : cbf = first ++ [(name x, c)] := by
          simpa [hx, bind, Except.bind, pure, Except.pure, eq_comm] using h
        rw [hcbf, FiniteMap.ofList, List.foldl_append, List.foldl_cons, List.foldl_nil,
          FiniteMap.get?_insert]
        rw [List.filter_append] at ha
        by_cases hkey : name x = key
        · have hlast : x = a := by simpa [hkey] using ha
          subst hlast
          exact ⟨c, hx, if_pos hkey.symm⟩
        · have hlast : (rest.filter fun a => name a = key).getLast? = some a := by
            simpa [hkey] using ha
          rw [if_neg (Ne.symm hkey)]
          exact ih hrest hlast

/-- The last function of a name was estimated, and its estimate is the one in the map. -/
theorem get?_of_lastNamed {cbf : List (String × Long)}
    (h : ContractScript.estimateComplexityByFunction version contract estimator = .ok cbf)
    {name : String} {f : AnnotatedFunction} (hf : contract.lastNamed name = some f) :
    ∃ c, ContractScript.estimateFunction version contract estimator f = .ok c ∧
      (FiniteMap.ofList cbf).get? name = some c :=
  get?_ofList_mapM (fun f : AnnotatedFunction => f.u.name)
    (ContractScript.estimateFunction version contract estimator) h name hf

/-- The map that the estimates of a contract are kept in, with the limit or without. -/
theorem complexityInfo_map {total : Long} {cm : FiniteMap String Long}
    (h : (Script.ContractScript version contract).complexityInfo estimator = .ok (total, cm)) :
    ∃ cbf, ContractScript.estimateComplexityByFunction version contract estimator = .ok cbf ∧
      cm = FiniteMap.ofList cbf := by
  change ContractScript.estimateComplexity version contract estimator = _ at h
  unfold ContractScript.estimateComplexity at h
  cases hcbf : ContractScript.estimateComplexityByFunction version contract estimator with
  | error e =>
    rw [hcbf] at h
    cases h
  | ok cbf =>
    refine ⟨cbf, rfl, ?_⟩
    rw [hcbf] at h
    simp only [bind, Except.bind] at h
    cases hmax : ContractScript.maximum cbf with
    | none =>
      rw [hmax] at h
      cases h
      rfl
    | some m =>
      rw [hmax] at h
      simp only at h
      split at h
      · cases h
        rfl
      · cases h

theorem limitFreeComplexity_map {total : Long} {cm : FiniteMap String Long}
    (h : (Script.ContractScript version contract).limitFreeComplexity estimator = .ok (total, cm)) :
    ∃ cbf, ContractScript.estimateComplexityByFunction version contract estimator = .ok cbf ∧
      cm = FiniteMap.ofList cbf := by
  change ContractScript.limitFreeComplexity version contract estimator = _ at h
  unfold ContractScript.limitFreeComplexity at h
  cases hcbf : ContractScript.estimateComplexityByFunction version contract estimator with
  | error e =>
    rw [hcbf] at h
    cases h
  | ok cbf =>
    rw [hcbf] at h
    cases h
    exact ⟨cbf, rfl, rfl⟩

omit [LibContexts] in
/-- The function that the evaluator finds is the first callable one of its name. -/
theorem callable_eq_ok {call : FunctionCall} {f : AnnotatedFunction}
    (h : ContractEvaluator.callable contract call = .ok f) :
    contract.callableFuncs.find? (fun f => f.u.name = call.function.funcName) = some f ∧
      f.u.name = call.function.funcName ∧ f.u.args.length = call.args.length := by
  unfold ContractEvaluator.callable at h
  simp only at h
  cases hfind : contract.callableFuncs.find? fun f => f.u.name = call.function.funcName with
  | none =>
    rw [hfind] at h
    simp only at h
    split at h <;> cases h
  | some g =>
    rw [hfind] at h
    simp only at h
    split at h
    · rename_i hargs
      cases h
      have hname := List.find?_some hfind
      exact ⟨rfl, of_decide_eq_true hname, hargs⟩
    · cases h

omit [LibContexts] in
/-- A name that a callable function has is in the map, so a call of it is charged what the
map says. A call that is left out is looked up under the same name. -/
theorem calcFunctionComplexity_eq {maybeCall : Option FunctionCall} {f : AnnotatedFunction}
    (hf : ContractEvaluator.callable contract (funcCall maybeCall) = .ok f) {total c : Long}
    {cm : FiniteMap String Long} (hc : cm.get? f.u.name = some c) :
    DiffsCommon.calcFunctionComplexity (.ContractScript version contract) maybeCall (total, cm) =
      c := by
  obtain ⟨hfind, hname, hargs⟩ := callable_eq_ok hf
  cases maybeCall with
  | some call =>
    change cm.getOrElse call.function.funcName total = c
    change f.u.name = call.function.funcName at hname
    rw [FiniteMap.getOrElse, ← hname, hc]
    rfl
  | none =>
    change f.u.name = DEFAULT_FUNC_NAME at hname
    change contract.callableFuncs.find? (fun f => f.u.name = DEFAULT_FUNC_NAME) = some f at hfind
    change f.u.args.length = 0 at hargs
    -- the first function of the name takes no arguments, so it is the first such function too
    have hdefault : contract.callableFuncs.find?
        (fun f => f.u.name = DEFAULT_FUNC_NAME ∧ f.u.args.isEmpty) = some f := by
      rw [List.find?_eq_some_iff_append] at hfind ⊢
      obtain ⟨-, before, after, heq, hnone⟩ := hfind
      refine ⟨?_, before, after, heq, fun g hg => ?_⟩
      · simp [hname, List.length_eq_zero_iff.mp hargs]
      · have hg' := hnone g hg
        simp only [Bool.not_eq_true', decide_eq_false_iff_not] at hg' ⊢
        exact fun h => hg' h.1
    unfold DiffsCommon.calcFunctionComplexity
    simp only
    rw [hdefault]
    change (cm.get? f.u.name).getD total = c
    rw [hc]
    rfl

omit [LibContexts] in
/-- A function that can be run is not the last of its name for nothing: some function is. -/
theorem exists_lastNamed {f : AnnotatedFunction} (h : f ∈ contract.annotatedFuncs) :
    ∃ last, contract.lastNamed f.u.name = some last := by
  apply Option.isSome_iff_exists.mp
  unfold DApp.lastNamed
  rw [List.getLast?_isSome]
  exact List.ne_nil_of_mem (List.mem_filter.mpr ⟨h, by simp⟩)

end Lookup

/-! ## 5. What is charged is the last function's estimate -/

section Charged

variable {version : StdLibVersion} {contract : DApp} {estimator : ScriptEstimator}

omit [DAppMetaSerializer] [LibContexts] in
theorem exists_of_map_eq_ok {α β : Type} {x : Except String α} {f : α → β} {b : β}
    (h : x.map f = .ok b) : ∃ a, x = .ok a ∧ f a = b := by
  cases x with
  | error e => cases h
  | ok a => exact ⟨a, rfl, Except.ok.inj h⟩

/-- The last function of the name has the same estimate as this one. -/
def LastEstimatedAs (version : StdLibVersion) (contract : DApp) (estimator : ScriptEstimator)
    (f : AnnotatedFunction) : Prop :=
  ∀ last, contract.lastNamed f.u.name = some last →
    ContractScript.estimateFunction version contract estimator last =
      ContractScript.estimateFunction version contract estimator f

theorem charged_iff_of_map {maybeCall : Option FunctionCall} {f : AnnotatedFunction}
    (hf : ContractEvaluator.callable contract (funcCall maybeCall) = .ok f) {total recorded : Long}
    {cm : FiniteMap String Long}
    (hmap : ∃ cbf, ContractScript.estimateComplexityByFunction version contract estimator = .ok cbf ∧
      cm = FiniteMap.ofList cbf)
    (hrec : DiffsCommon.calcFunctionComplexity (.ContractScript version contract) maybeCall
      (total, cm) = recorded) :
    ContractScript.estimateFunction version contract estimator f = .ok recorded ↔
      LastEstimatedAs version contract estimator f := by
  obtain ⟨cbf, hcbf, rfl⟩ := hmap
  obtain ⟨hfind, -, -⟩ := callable_eq_ok hf
  have hin : f ∈ contract.annotatedFuncs :=
    List.mem_append_left _ (List.mem_of_find?_eq_some hfind)
  obtain ⟨last, hlast⟩ := exists_lastNamed hin
  obtain ⟨c, hc, hget⟩ := get?_of_lastNamed hcbf hlast
  rw [calcFunctionComplexity_eq hf hget] at hrec
  subst hrec
  constructor
  · intro h other hother
    have heq : last = other := Option.some.inj (hlast.symm.trans hother)
    rw [← heq, hc, h]
  · intro h
    rw [← h last hlast, hc]

/-- **A call is charged for what it runs** exactly when the last function of the name called,
the verifier counted after the callable ones, is estimated as the first callable one is. The
verifier is always charged for itself. -/
theorem complexity_exact_iff (version : StdLibVersion) (contract : DApp)
    (estimator : ScriptEstimator) :
    (∀ maybeCall f recorded,
      ContractEvaluator.callable contract (funcCall maybeCall) = .ok f →
      DiffsCommon.functionComplexity (.ContractScript version contract) estimator maybeCall =
        .ok recorded →
      (ContractScript.estimateFunction version contract estimator f = .ok recorded ↔
        LastEstimatedAs version contract estimator f)) ∧
    ∀ v recorded, contract.verifierFuncOpt = some v →
      DiffsCommon.verifierComplexity (.ContractScript version contract) estimator = .ok recorded →
      ContractScript.estimateFunction version contract estimator v = .ok recorded := by
  constructor
  · intro maybeCall f recorded hf hrec
    unfold DiffsCommon.functionComplexity at hrec
    obtain ⟨⟨total, cm⟩, hinfo, hcalc⟩ := exists_of_map_eq_ok hrec
    exact charged_iff_of_map hf (complexityInfo_map hinfo) hcalc
  · intro v recorded hv hrec
    unfold DiffsCommon.verifierComplexity at hrec
    obtain ⟨⟨total, cm⟩, hinfo, hcalc⟩ := exists_of_map_eq_ok hrec
    obtain ⟨cbf, hcbf, rfl⟩ := complexityInfo_map hinfo
    -- nothing comes after the verifier
    have hlast : contract.lastNamed v.u.name = some v := by
      unfold DApp.lastNamed DApp.annotatedFuncs
      rw [hv, List.filter_append]
      simp
    obtain ⟨c, hc, hget⟩ := get?_of_lastNamed hcbf hlast
    have hcharged : DiffsCommon.calcVerifierComplexity (.ContractScript version contract)
        (total, FiniteMap.ofList cbf) = c := by
      obtain ⟨meta_, decs, callableFuncs, verifierFuncOpt⟩ := contract
      change verifierFuncOpt = some v at hv
      subst hv
      show (FiniteMap.ofList cbf).getOrElse v.u.name total = c
      rw [FiniteMap.getOrElse, hget]
      rfl
    rw [hc, ← hcalc, hcharged]

/-- The same holds of the complexity without a limit, which is charged later on. -/
theorem limitFreeComplexity_exact_iff {maybeCall : Option FunctionCall} {f : AnnotatedFunction}
    {recorded : Long} (hf : ContractEvaluator.callable contract (funcCall maybeCall) = .ok f)
    (hrec : DiffsCommon.limitFreeComplexity (.ContractScript version contract) estimator maybeCall =
      .ok recorded) :
    ContractScript.estimateFunction version contract estimator f = .ok recorded ↔
      LastEstimatedAs version contract estimator f := by
  unfold DiffsCommon.limitFreeComplexity at hrec
  obtain ⟨⟨total, cm⟩, hinfo, hcalc⟩ := exists_of_map_eq_ok hrec
  exact charged_iff_of_map hf (limitFreeComplexity_map hinfo) hcalc

/-- Where names are not used twice, as the compiler makes sure, nothing is charged wrong. -/
theorem lastEstimatedAs_of_nodup (h : (contract.annotatedFuncs.map fun f => f.u.name).Nodup)
    {f : AnnotatedFunction} (hf : f ∈ contract.annotatedFuncs) :
    LastEstimatedAs version contract estimator f := by
  intro last hlast
  have hmem := List.mem_filter.mp (List.mem_of_getLast? hlast)
  have heq : last = f :=
    List.inj_on_of_nodup_map h hmem.1 hf (by simpa using hmem.2)
  rw [heq]

end Charged

end

/-! ## 6. A name used twice -/

section SharedName

local instance sharedNameMeta : DAppMetaSerializer := ScriptReader.emptyMeta

/-- The script below calls nothing that the library declares. -/
local instance noLibrary : LibContexts := ⟨fun _ _ => ∅, fun _ _ => ∅⟩

def costly (name : String) : AnnotatedFunction := ⟨"i", ⟨name, [], .IF TRUE TRUE TRUE⟩⟩

/-- Two callable functions of one name, of which the first costs more, and a verifier. -/
def sharedName : DApp :=
  ⟨([] : ByteStr), [], [costly "f", ⟨"i", ⟨"f", [], TRUE⟩⟩], some (costly "v")⟩

def sharedNameBody : ByteStr :=
  [0, 0, 0, 0, 0, 0, 0, 0, 0, 0, 0, 0, 0, 0, 0, 2,
    0, 0, 0, 1, 105, 1, 0, 0, 0, 1, 102, 0, 0, 0, 0, 3, 6, 6, 6,
    0, 0, 0, 1, 105, 1, 0, 0, 0, 1, 102, 0, 0, 0, 0, 6,
    0, 0, 0, 1, 0, 0, 0, 1, 105, 1, 0, 0, 0, 1, 118, 0, 0, 0, 0, 3, 6, 6, 6]

def sharedNameScript : ByteStr := [0, 2, 3] ++ sharedNameBody

local instance sharedNameDigests : Crypto :=
  ScriptReader.knownDigests [(sharedNameScript, BigEndian.write 32
    0x1d381fa4785d1bed2b01c44a7687e2c31407543c1e3f10493023ec1b10098b3d)]

/-- The contract is written as the body of the script. -/
theorem sharedName_bytes :
    ContractSerDe.serialize sharedName = .ok sharedNameBody ∧
      (Script.ContractScript .V3 sharedName).bytes = .ok (withChecksum sharedNameScript) ∧
      (withChecksum sharedNameScript).length ≤ MaxContractSizeInBytes ∧
      (utf8Bytes "f").length ≤ ContractLimits.MaxAnnotatedFunctionNameInBytes := by
  decide +kernel

/-- The body is what is left between the header and the digest, which is the right one. -/
theorem sharedName_frame :
    ScriptReader.takeRight (withChecksum sharedNameScript) ScriptReader.checksumLength =
        checksum (ScriptReader.dropRight (withChecksum sharedNameScript)
          ScriptReader.checksumLength) ∧
      ScriptReader.scriptBytes (withChecksum sharedNameScript) 3 = sharedNameBody := by
  decide +kernel

theorem fromBytes_sharedName :
    ScriptReader.fromBytes (withChecksum sharedNameScript) =
      .ok (.ContractScript .V3 sharedName) := by
  obtain ⟨hserialize, hbytes, hsize, hname⟩ := sharedName_bytes
  obtain ⟨hchecksum, hbody⟩ := sharedName_frame
  have hnames : ContractSerDe.NamesLimited sharedName := by
    intro f hf
    simp only [sharedName, List.mem_cons, List.not_mem_nil, or_false] at hf
    rcases hf with rfl | rfl <;> exact hname
  have hread := ScriptReader.takes_whole
    (ContractSerDe.takes_readDApp false hserialize (by decide) rfl hnames)
  have hdapp := ScriptReader.deserialize_eq_ok.mpr ⟨_, hread⟩
  have happly : ContractScript.apply .V3 sharedName = .ok (.ContractScript .V3 sharedName) := by
    obtain ⟨bs, hbs, hlength⟩ : ∃ bs, (Script.ContractScript .V3 sharedName).bytes = .ok bs ∧
        bs.length ≤ MaxContractSizeInBytes := ⟨_, hbytes, hsize⟩
    rw [ContractScript.apply, hbs]
    exact if_pos hlength
  have hheader : ScriptReader.header (withChecksum sharedNameScript) 0 = .ok (.DApp, .V3, 3) := rfl
  obtain ⟨rest, hrest⟩ : ∃ rest, withChecksum sharedNameScript = 0 :: rest := ⟨_, rfl⟩
  rw [hrest] at hchecksum hbody hheader ⊢
  rw [ScriptReader.fromBytes_cons, hheader]
  show (if _ then ScriptReader.parse .DApp .V3 (ScriptReader.scriptBytes _ 3) else _) = _
  rw [if_pos hchecksum, hbody, ScriptReader.parse, hdapp]
  exact happly

/-- The reader takes the script; a call of `f` runs the first function, estimated at three,
and is charged one. -/
theorem sharedName_mischarged : ¬ ∀ bytes version contract,
    ScriptReader.fromBytes bytes = .ok (.ContractScript version contract) →
    ∀ maybeCall f recorded,
      ContractEvaluator.callable contract (funcCall maybeCall) = .ok f →
      DiffsCommon.functionComplexity (.ContractScript version contract) scriptEstimatorV3
        maybeCall = .ok recorded →
      ContractScript.estimateFunction version contract scriptEstimatorV3 f = .ok recorded := by
  intro h
  have hcharged : DiffsCommon.functionComplexity (.ContractScript .V3 sharedName)
      scriptEstimatorV3 (some ⟨.User "f", []⟩) = .ok 1 := by decide +kernel
  have hcost := h _ _ _ fromBytes_sharedName (some ⟨.User "f", []⟩) (costly "f") 1 rfl hcharged
  revert hcost
  decide +kernel

/-- The verifier is charged for itself, and the call for another function. -/
theorem complexity_exact_iff_sharedName :
    (ContractScript.estimateFunction .V3 sharedName scriptEstimatorV3 (costly "f") = .ok 1 ↔
      LastEstimatedAs .V3 sharedName scriptEstimatorV3 (costly "f")) ∧
    ContractScript.estimateFunction .V3 sharedName scriptEstimatorV3 (costly "v") = .ok 3 :=
  ⟨(complexity_exact_iff .V3 sharedName scriptEstimatorV3).1 (some ⟨.User "f", []⟩) _ _ rfl
      (by decide +kernel),
    (complexity_exact_iff .V3 sharedName scriptEstimatorV3).2 _ _ rfl (by decide +kernel)⟩

end SharedName

end Lang

end WavesNode
