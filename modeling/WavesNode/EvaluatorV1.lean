/-
The evaluator of the language.

A declared value is not computed where it is declared: it is stored with the context of its
declaration, and computed when it is first referred to. What came out is kept. A stored value
is known here by its place in a list that only grows, and the log says in which order values
were computed, each under its name.

Arguments are computed before the call. The body of a declared function is computed in the
context of its caller, with its parameters added: a function is its parameters and its body,
and nothing of the context of its declaration.

The evaluator is run with fuel. More fuel does not change an answer (`evalExpr_mono`), and
`Evaluates` says that some amount of fuel gives the answer; §4 has its rules, one for each
kind of expression that the later files meet.
-/
import WavesNode.Terms
import WavesNode.Types

set_option autoImplicit false

namespace WavesNode

namespace Lang

/-! ## 1. Contexts and stored values -/

/-- What the virtual machine throws. -/
inductive Throwable where
  | ArithmeticException (message : String)
  | ClassCastException
  | NotImplementedError
  deriving DecidableEq

/-- `Throwable.getMessage`. -/
def Throwable.getMessage : Throwable → String
  | .ArithmeticException message => message
  | .ClassCastException => "null"
  | .NotImplementedError => "an implementation is missing"

/-- `Either[ExecutionError, α]`, of code that may throw. -/
inductive Outcome (α : Type) where
  | Right (a : α)
  | Left (e : String)
  | thrown (t : Throwable)

/-- `BaseFunction`: one that the context brings, or one that is declared. -/
inductive BaseFunction where
  | NativeFunction (name : String) (ev : List EVALUATED → Outcome EVALUATED)
  | UserFunction (name : String) (args : List String) (ev : EXPR)

/-- `EvaluationContext`: a definition is known by where it is stored. -/
structure EvaluationContext where
  typeDefs : String → Option FINAL
  letDefs : String → Option ℕ
  functions : FunctionHeader → Option BaseFunction

/-- `LazyVal`: not yet computed, or computed. -/
inductive LazyVal where
  | delayed (name : String) (v : EXPR) (ctx : EvaluationContext)
  | external (name : String) (v : Outcome EVALUATED)
  | memoized (value : Except String EVALUATED)

/-- The stored values, and the log of those that were computed. -/
structure Heap where
  cells : List LazyVal
  log : List (String × Except String EVALUATED)

namespace EvaluationContext

def withLet (ctx : EvaluationContext) (name : String) (place : ℕ) : EvaluationContext :=
  { ctx with letDefs := Function.update ctx.letDefs name (some place) }

def withFunction (ctx : EvaluationContext) (header : FunctionHeader) (f : BaseFunction) :
    EvaluationContext :=
  { ctx with functions := Function.update ctx.functions header (some f) }

@[simp] theorem withLet_letDefs_self (ctx : EvaluationContext) (name : String) (place : ℕ) :
    (ctx.withLet name place).letDefs name = some place := Function.update_self ..

@[simp] theorem withLet_letDefs_ne {name key : String} (h : key ≠ name) (ctx : EvaluationContext)
    (place : ℕ) : (ctx.withLet name place).letDefs key = ctx.letDefs key :=
  Function.update_of_ne h ..

@[simp] theorem withLet_functions (ctx : EvaluationContext) (name : String) (place : ℕ) :
    (ctx.withLet name place).functions = ctx.functions := rfl

@[simp] theorem withLet_typeDefs (ctx : EvaluationContext) (name : String) (place : ℕ) :
    (ctx.withLet name place).typeDefs = ctx.typeDefs := rfl

end EvaluationContext

namespace Heap

/-- A new stored value, and its place. -/
def alloc (h : Heap) (v : LazyVal) : Heap := { h with cells := h.cells ++ [v] }

/-- The value at a place has been computed. -/
def memoize (h : Heap) (place : ℕ) (name : String) (value : Except String EVALUATED) : Heap :=
  ⟨h.cells.set place (.memoized value), h.log ++ [(name, value)]⟩

@[simp] theorem alloc_log (h : Heap) (v : LazyVal) : (h.alloc v).log = h.log := rfl

@[simp] theorem alloc_getElem?_self (h : Heap) (v : LazyVal) :
    (h.alloc v).cells[h.cells.length]? = some v := by
  simp [alloc]

theorem alloc_getElem?_of_some {h : Heap} {v w : LazyVal} {place : ℕ}
    (hplace : h.cells[place]? = some w) : (h.alloc v).cells[place]? = some w := by
  obtain ⟨hlt, -⟩ := List.getElem?_eq_some_iff.mp hplace
  rw [alloc, List.getElem?_append_left hlt, hplace]

@[simp] theorem memoize_length (h : Heap) (place : ℕ) (name : String)
    (value : Except String EVALUATED) :
    (h.memoize place name value).cells.length = h.cells.length := by
  simp [memoize]

theorem memoize_getElem?_self {h : Heap} {place : ℕ} (hplace : place < h.cells.length)
    (name : String) (value : Except String EVALUATED) :
    (h.memoize place name value).cells[place]? = some (.memoized value) := by
  simp [memoize, hplace]

end Heap

/-! ## 2. The evaluator -/

/-- `EvalM`: a computation over the stored values; without a result, it has not ended. -/
def EvalM (α : Type) : Type := Heap → Option (Outcome α × Heap)

namespace EvalM

variable {α β : Type}

def pure (a : α) : EvalM α := fun h => some (.Right a, h)

def raiseError (e : String) : EvalM α := fun h => some (.Left e, h)

def throw (t : Throwable) : EvalM α := fun h => some (.thrown t, h)

def lift (o : Outcome α) : EvalM α := fun h => some (o, h)

def bind (m : EvalM α) (f : α → EvalM β) : EvalM β := fun h =>
  match m h with
  | none => none
  | some (.Right a, h') => f a h'
  | some (.Left e, h') => some (.Left e, h')
  | some (.thrown t, h') => some (.thrown t, h')

instance : Monad EvalM where
  pure := EvalM.pure
  bind := EvalM.bind

/-- `traverse`, of the arguments of a call. -/
def traverse (f : α → EvalM β) : List α → EvalM (List β)
  | [] => pure []
  | a :: as => bind (f a) fun b => bind (traverse f as) fun bs => pure (b :: bs)

end EvalM

/-- `CaseObj.fields.get`. -/
def EVALUATED.field (fields : List (String × EVALUATED)) (name : String) : Option EVALUATED :=
  fields.lookup name

/-- `toString` of a header. -/
def headerText : FunctionHeader → String
  | .Native name => s!"Native({name})"
  | .User internalName => s!"User({internalName})"

namespace EvaluatorV1

/-- `LazyVal.value`: the value at a place, computed once. -/
def force (eval : EXPR → EvaluationContext → EvalM EVALUATED) (place : ℕ) : EvalM EVALUATED :=
  fun h =>
  let keep (name : String) (computed : Option (Outcome EVALUATED × Heap)) :=
    match computed with
    | some (.Right v, h') => some (.Right v, h'.memoize place name (.ok v))
    | some (.Left e, h') => some (.Left e, h'.memoize place name (.error e))
    | other => other
  match h.cells[place]? with
  | some (.memoized (.ok v)) => some (.Right v, h)
  | some (.memoized (.error e)) => some (.Left e, h)
  | some (.delayed name v ctx) => keep name (eval v ctx h)
  | some (.external name o) => keep name (some (o, h))
  | none => none

/-- `evalLetBlock`, up to the body: the value is stored with the context. -/
def letDef (ctx : EvaluationContext) (name : String) (value : EXPR) : EvalM EvaluationContext :=
  fun h => some (.Right (ctx.withLet name h.cells.length), h.alloc (.delayed name value ctx))

/-- The arguments of a call, under the names of the parameters. -/
def bindArgs (ctx : EvaluationContext) : List (EVALUATED × String) → EvalM EvaluationContext
  | [] => EvalM.pure ctx
  | (v, name) :: rest =>
    EvalM.bind (letDef ctx name (.evaluated v)) fun ctx' => bindArgs ctx' rest

/-- `evalExpr`. -/
def evalExpr : ℕ → EXPR → EvaluationContext → EvalM EVALUATED
  | 0, _, _ => fun _ => none
  | n + 1, e, ctx =>
    match e with
    | .LET_BLOCK name value body | .BLOCK (.LET name value) body =>
      EvalM.bind (letDef ctx name value) fun ctx' => evalExpr n body ctx'
    | .BLOCK (.FUNC name args body) inner =>
      evalExpr n inner (ctx.withFunction (.User name) (.UserFunction name args body))
    | .REF key =>
      match ctx.letDefs key with
      | some place => force (evalExpr n) place
      | none => EvalM.raiseError s!"A definition of '{key}' not found"
    | .evaluated v => EvalM.pure v
    | .IF cond ifTrue ifFalse =>
      EvalM.bind (evalExpr n cond ctx) fun
        | .CONST_BOOLEAN true => evalExpr n ifTrue ctx
        | .CONST_BOOLEAN false => evalExpr n ifFalse ctx
        | _ => EvalM.throw .NotImplementedError
    | .GETTER expr field =>
      EvalM.bind (evalExpr n expr ctx) fun
        | .CaseObj _ fields =>
          match EVALUATED.field fields field with
          | some f => EvalM.pure f
          | none =>
            let keys := ", ".intercalate (fields.map Prod.fst)
            EvalM.raiseError s!"A definition of '{field}' not found amongst Set({keys})"
        | _ => EvalM.throw .ClassCastException
    | .FUNCTION_CALL header args =>
      match ctx.functions header with
      | some (.UserFunction _ params body) =>
        EvalM.bind (EvalM.traverse (evalExpr n · ctx) args) fun vs =>
          EvalM.bind (bindArgs ctx (vs.zip params)) fun ctx' => evalExpr n body ctx'
      | some (.NativeFunction _ ev) =>
        EvalM.bind (EvalM.traverse (evalExpr n · ctx) args) fun vs => EvalM.lift (ev vs)
      | none =>
        -- no such function, try data constructor
        match header with
        | .User typeName =>
          match ctx.typeDefs typeName with
          | some (.real (.CASETYPEREF name fields)) =>
            EvalM.bind (EvalM.traverse (evalExpr n · ctx) args) fun vs =>
              EvalM.pure (.CaseObj name ((fields.map Prod.fst).zip vs))
          | _ => EvalM.raiseError s!"function '{headerText header}' not found"
        | _ => EvalM.raiseError s!"function '{headerText header}' not found"

@[simp] theorem evalExpr_zero (e : EXPR) (ctx : EvaluationContext) (h : Heap) :
    evalExpr 0 e ctx h = none := rfl

theorem evalExpr_REF (n : ℕ) (key : String) (ctx : EvaluationContext) :
    evalExpr (n + 1) (.REF key) ctx =
      match ctx.letDefs key with
      | some place => force (evalExpr n) place
      | none => EvalM.raiseError s!"A definition of '{key}' not found" := rfl

theorem evalExpr_IF (n : ℕ) (cond ifTrue ifFalse : EXPR) (ctx : EvaluationContext) :
    evalExpr (n + 1) (.IF cond ifTrue ifFalse) ctx = EvalM.bind (evalExpr n cond ctx) fun
      | .CONST_BOOLEAN true => evalExpr n ifTrue ctx
      | .CONST_BOOLEAN false => evalExpr n ifFalse ctx
      | _ => EvalM.throw .NotImplementedError := rfl

/-! ## 3. More fuel

One computation is below another when the other has all its results. -/

/-- The second has every result that the first has. -/
def Below {α : Type} (m m' : EvalM α) : Prop := ∀ h r, m h = some r → m' h = some r

section
variable {α β : Type}

theorem Below.refl (m : EvalM α) : Below m m := fun _ _ hr => hr

theorem Below.trans {m m' m'' : EvalM α} (h : Below m m') (h' : Below m' m'') : Below m m'' :=
  fun _ _ hr => h' _ _ (h _ _ hr)

theorem Below.bind {m m' : EvalM α} {f f' : α → EvalM β} (hm : Below m m')
    (hf : ∀ a, Below (f a) (f' a)) : Below (EvalM.bind m f) (EvalM.bind m' f') := by
  intro h r hr
  unfold EvalM.bind at hr ⊢
  cases hfirst : m h with
  | none => simp [hfirst] at hr
  | some first =>
    rw [hfirst] at hr
    rw [hm h first hfirst]
    obtain ⟨o, h'⟩ := first
    cases o with
    | Right a => exact hf a h' r hr
    | Left e => exact hr
    | thrown t => exact hr

theorem Below.traverse {f f' : α → EvalM β} (hf : ∀ a, Below (f a) (f' a)) (as : List α) :
    Below (EvalM.traverse f as) (EvalM.traverse f' as) := by
  induction as with
  | nil => exact .refl _
  | cons a as ih => exact .bind (hf a) fun b => .bind ih fun bs => .refl _

end

theorem Below.force {eval eval' : EXPR → EvaluationContext → EvalM EVALUATED}
    (heval : ∀ e ctx, Below (eval e ctx) (eval' e ctx)) (place : ℕ) :
    Below (force eval place) (force eval' place) := by
  intro h r hr
  unfold EvaluatorV1.force at hr ⊢
  dsimp only at hr ⊢
  cases hcell : h.cells[place]? with
  | none => simp [hcell] at hr
  | some cell =>
    rw [hcell] at hr
    cases cell with
    | memoized v => cases v <;> exact hr
    | external name o => exact hr
    | delayed name v ctx =>
      dsimp only at hr ⊢
      cases hcomputed : eval v ctx h with
      | none => simp [hcomputed] at hr
      | some computed =>
        rw [heval v ctx h computed hcomputed]
        rw [hcomputed] at hr
        exact hr

theorem evalExpr_succ (n : ℕ) (e : EXPR) (ctx : EvaluationContext) :
    Below (evalExpr n e ctx) (evalExpr (n + 1) e ctx) := by
  induction n generalizing e ctx with
  | zero =>
    intro h r hr
    simp at hr
  | succ n ih =>
    have hargs (args : List EXPR) : Below (EvalM.traverse (evalExpr n · ctx) args)
        (EvalM.traverse (evalExpr (n + 1) · ctx) args) := .traverse (fun e => ih e ctx) args
    rw [evalExpr.eq_def (n + 1), evalExpr.eq_def (n + 1 + 1)]
    dsimp only
    split
    · exact .bind (.refl _) fun ctx' => ih _ ctx'
    · exact .bind (.refl _) fun ctx' => ih _ ctx'
    · exact ih _ _
    · split
      · exact .force ih _
      · exact .refl _
    · exact .refl _
    · refine .bind (ih _ ctx) fun v => ?_
      split
      · exact ih _ ctx
      · exact ih _ ctx
      · exact .refl _
    · exact .bind (ih _ ctx) fun v => .refl _
    · split
      · exact .bind (hargs _) fun vs => .bind (.refl _) fun ctx' => ih _ ctx'
      · exact .bind (hargs _) fun vs => .refl _
      · split
        · split
          · exact .bind (hargs _) fun vs => .refl _
          · exact .refl _
        · exact .refl _

/-- **More fuel does not change an answer.** -/
theorem evalExpr_mono {n m : ℕ} (hle : n ≤ m) (e : EXPR) (ctx : EvaluationContext) :
    Below (evalExpr n e ctx) (evalExpr m e ctx) := by
  induction hle with
  | refl => exact .refl _
  | step _ ih => exact ih.trans (evalExpr_succ _ e ctx)

/-- The evaluation ends, with this outcome and these stored values. -/
def Evaluates (e : EXPR) (ctx : EvaluationContext) (h : Heap) (o : Outcome EVALUATED)
    (h' : Heap) : Prop := ∃ n, evalExpr n e ctx h = some (o, h')

/-- **The evaluator is deterministic**, whatever the fuel. -/
theorem Evaluates.unique {e : EXPR} {ctx : EvaluationContext} {h h₁ h₂ : Heap}
    {o₁ o₂ : Outcome EVALUATED} (first : Evaluates e ctx h o₁ h₁)
    (second : Evaluates e ctx h o₂ h₂) : o₁ = o₂ ∧ h₁ = h₂ := by
  obtain ⟨n, hn⟩ := first
  obtain ⟨m, hm⟩ := second
  have hn' := evalExpr_mono (Nat.le_max_left n m) e ctx h _ hn
  have hm' := evalExpr_mono (Nat.le_max_right n m) e ctx h _ hm
  rw [hn', Option.some.injEq, Prod.mk.injEq] at hm'
  exact hm'

/-! ## 4. Rules -/

section
variable {ctx : EvaluationContext} {h h' h'' : Heap} {o : Outcome EVALUATED}

theorem evaluates_evaluated (v : EVALUATED) : Evaluates (.evaluated v) ctx h (.Right v) h :=
  ⟨1, rfl⟩

/-- The body is computed with the value stored. -/
theorem evaluates_LET_BLOCK_iff {name : String} {value body : EXPR} :
    Evaluates (.LET_BLOCK name value body) ctx h o h' ↔
      Evaluates body (ctx.withLet name h.cells.length) (h.alloc (.delayed name value ctx))
        o h' := by
  constructor
  · rintro ⟨n, hn⟩
    cases n with
    | zero => simp at hn
    | succ n => exact ⟨n, hn⟩
  · rintro ⟨n, hn⟩
    exact ⟨n + 1, hn⟩

theorem evaluates_REF_memoized {key : String} {place : ℕ} {v : EVALUATED}
    (hlet : ctx.letDefs key = some place) (hcell : h.cells[place]? = some (.memoized (.ok v))) :
    Evaluates (.REF key) ctx h (.Right v) h := by
  refine ⟨1, ?_⟩
  rw [evalExpr_REF]
  simp only [hlet, force, hcell]

/-- What is stored is computed in the context it was stored with, kept and logged. -/
theorem evaluates_REF_delayed {key name : String} {place : ℕ} {e : EXPR} {v : EVALUATED}
    {ctx' : EvaluationContext} (hlet : ctx.letDefs key = some place)
    (hcell : h.cells[place]? = some (.delayed name e ctx'))
    (heval : Evaluates e ctx' h (.Right v) h') :
    Evaluates (.REF key) ctx h (.Right v) (h'.memoize place name (.ok v)) := by
  obtain ⟨n, hn⟩ := heval
  refine ⟨n + 1, ?_⟩
  rw [evalExpr_REF]
  simp only [hlet, force, hcell, hn]

theorem evaluates_IF {cond ifTrue ifFalse : EXPR} {b : Bool}
    (hcond : Evaluates cond ctx h (.Right (.CONST_BOOLEAN b)) h')
    (hbranch : Evaluates (if b then ifTrue else ifFalse) ctx h' o h'') :
    Evaluates (.IF cond ifTrue ifFalse) ctx h o h'' := by
  obtain ⟨n, hn⟩ := hcond
  obtain ⟨m, hm⟩ := hbranch
  have hn' := evalExpr_mono (Nat.le_max_left n m) cond ctx h _ hn
  have hm' := evalExpr_mono (Nat.le_max_right n m) _ ctx h' _ hm
  refine ⟨max n m + 1, ?_⟩
  rw [evalExpr_IF]
  simp only [EvalM.bind, hn']
  cases b with
  | true => exact hm'
  | false => exact hm'

/-- A conditional is the branch that its condition chooses. -/
theorem evaluates_IF_iff {cond ifTrue ifFalse : EXPR} {b : Bool}
    (hcond : Evaluates cond ctx h (.Right (.CONST_BOOLEAN b)) h') :
    Evaluates (.IF cond ifTrue ifFalse) ctx h o h'' ↔
      Evaluates (if b then ifTrue else ifFalse) ctx h' o h'' := by
  refine ⟨?_, evaluates_IF hcond⟩
  rintro ⟨n, hn⟩
  cases n with
  | zero => simp at hn
  | succ n =>
    rw [evalExpr_IF] at hn
    unfold EvalM.bind at hn
    cases hfirst : evalExpr n cond ctx h with
    | none => simp [hfirst] at hn
    | some first =>
      obtain ⟨o', h₁⟩ := first
      obtain ⟨rfl, rfl⟩ := Evaluates.unique ⟨n, hfirst⟩ hcond
      rw [hfirst] at hn
      cases b with
      | true => exact ⟨n, hn⟩
      | false => exact ⟨n, hn⟩

/-- The arguments of a call, one after another. -/
inductive Traverses (ctx : EvaluationContext) :
    List EXPR → Heap → List EVALUATED → Heap → Prop where
  | nil (h : Heap) : Traverses ctx [] h [] h
  | cons {e : EXPR} {es : List EXPR} {v : EVALUATED} {vs : List EVALUATED} {h h' h'' : Heap}
      (head : Evaluates e ctx h (.Right v) h') (tail : Traverses ctx es h' vs h'') :
      Traverses ctx (e :: es) h (v :: vs) h''

theorem Traverses.run {args : List EXPR} {vs : List EVALUATED}
    (hargs : Traverses ctx args h vs h') :
    ∃ n, EvalM.traverse (evalExpr n · ctx) args h = some (.Right vs, h') := by
  induction hargs with
  | nil h => exact ⟨0, rfl⟩
  | @cons e es v vs h₀ h₁ h₂ head tail ih =>
    obtain ⟨n, hn⟩ := head
    obtain ⟨m, hm⟩ := ih
    refine ⟨max n m, ?_⟩
    have hn' := evalExpr_mono (Nat.le_max_left n m) e ctx _ _ hn
    have hbelow := Below.traverse (fun e => evalExpr_mono (Nat.le_max_right n m) e ctx) es
    simp only [EvalM.traverse, EvalM.bind, hn', hbelow _ _ hm, EvalM.pure]

/-- Values are computed already. -/
theorem traverses_evaluated (vs : List EVALUATED) : Traverses ctx (vs.map .evaluated) h vs h := by
  induction vs with
  | nil => exact .nil h
  | cons v vs ih => exact .cons (evaluates_evaluated v) ih

/-- A function that the context brings is applied to the values of the arguments. -/
theorem evaluates_NativeFunction {header : FunctionHeader} {args : List EXPR} {name : String}
    {ev : List EVALUATED → Outcome EVALUATED} {vs : List EVALUATED}
    (hfun : ctx.functions header = some (.NativeFunction name ev))
    (hargs : Traverses ctx args h vs h') :
    Evaluates (.FUNCTION_CALL header args) ctx h (ev vs) h' := by
  obtain ⟨n, hn⟩ := hargs.run
  refine ⟨n + 1, ?_⟩
  rw [evalExpr.eq_def]
  simp only [hfun, EvalM.bind, hn, EvalM.lift]

/-- The body of a declared function is computed in the context of the call. -/
theorem evaluates_UserFunction {header : FunctionHeader} {args : List EXPR} {name : String}
    {params : List String} {body : EXPR} {vs : List EVALUATED} {ctx' : EvaluationContext}
    (hfun : ctx.functions header = some (.UserFunction name params body))
    (hargs : Traverses ctx args h vs h')
    (hbind : bindArgs ctx (vs.zip params) h' = some (.Right ctx', h''))
    {h₁ : Heap} (hbody : Evaluates body ctx' h'' o h₁) :
    Evaluates (.FUNCTION_CALL header args) ctx h o h₁ := by
  obtain ⟨n, hn⟩ := hargs.run
  obtain ⟨m, hm⟩ := hbody
  have hbelow := Below.traverse (fun e => evalExpr_mono (Nat.le_max_left n m) e ctx) args
  have hm' := evalExpr_mono (Nat.le_max_right n m) body ctx' _ _ hm
  refine ⟨max n m + 1, ?_⟩
  rw [evalExpr.eq_def]
  simp only [hfun, EvalM.bind, hbelow _ _ hn, hbind, hm']

end

end EvaluatorV1

end Lang

end WavesNode
