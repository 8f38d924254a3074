/-
Values that do not depend on when they are computed.

A declared value is stored, and computed when it is first referred to. By then other values may
have been stored and computed. An expression yields an outcome from some stored values on when
it has that outcome whatever happened since; then its name yields that outcome, too, at its
first use and at any other (`yields_REF_of_stored`). The rules below are those of the evaluator
without the stored values in them.
-/
import WavesNode.StoredValues

set_option autoImplicit false

namespace WavesNode

namespace Lang

/-- The next computation, of a result; what is not a result is passed on. -/
def Outcome.andThen {α β : Type} (o : Outcome α) (f : α → Outcome β) : Outcome β :=
  match o with
  | .Right a => f a
  | .Left e => .Left e
  | .thrown t => .thrown t

namespace EvaluatorV1

/-! ## 1. One use and the next -/

section
variable {ctx ctx' : EvaluationContext} {h h' : Heap} {e : EXPR} {o : Outcome EVALUATED}

/-- Whatever is stored and computed from `h` on, the expression has the outcome. -/
def Yields (h : Heap) (e : EXPR) (ctx : EvaluationContext) (o : Outcome EVALUATED) : Prop :=
  ∀ h', Later h h' → ∃ h'', Evaluates e ctx h' o h''

theorem Later.trans {h'' : Heap} (hlater : Later h h') (hlater' : Later h' h'') : Later h h'' := by
  induction hlater' with
  | refl => exact hlater
  | alloc _ v ih => exact ih.alloc v
  | evaluated _ heval ih => exact ih.evaluated heval

theorem Yields.later (he : Yields h e ctx o) (hlater : Later h h') : Yields h' e ctx o :=
  fun _ hlater' => he _ (hlater.trans hlater')

theorem yields_evaluated (v : EVALUATED) : Yields h (.evaluated v) ctx (.Right v) :=
  fun h' _ => ⟨h', evaluates_evaluated v⟩

/-- Of the scope a name needs what it stands for. -/
theorem Yields.REF_congr {key : String} (hsame : ctx'.letDefs key = ctx.letDefs key)
    (he : Yields h (.REF key) ctx o) : Yields h (.REF key) ctx' o := by
  intro h' hlater
  obtain ⟨h'', n, hn⟩ := he h' hlater
  cases n with
  | zero => simp at hn
  | succ n =>
    refine ⟨h'', n + 1, ?_⟩
    rw [evalExpr_REF] at hn ⊢
    rwa [hsame]

theorem evaluates_REF_kept {key : String} {place : ℕ} {result : Except String EVALUATED}
    (hlet : ctx.letDefs key = some place) (hcell : h.cells[place]? = some (.memoized result)) :
    Evaluates (.REF key) ctx h (kept result) h := by
  refine ⟨1, ?_⟩
  rw [evalExpr_REF]
  cases result with
  | ok v => simp only [hlet, force, hcell, kept]
  | error e => simp only [hlet, force, hcell, kept]

/-- The first use of a name has the outcome of the expression. -/
theorem exists_evaluates_REF_delayed {key name : String} {place : ℕ}
    (hlet : ctx'.letDefs key = some place)
    (hcell : h.cells[place]? = some (.delayed name e ctx)) (heval : Evaluates e ctx h o h') :
    ∃ h'', Evaluates (.REF key) ctx' h o h'' := by
  obtain ⟨n, hn⟩ := heval
  cases o with
  | Right v =>
    refine ⟨h'.memoize place name (.ok v), n + 1, ?_⟩
    rw [evalExpr_REF]
    simp only [hlet, force, hcell, hn]
  | Left e =>
    refine ⟨h'.memoize place name (.error e), n + 1, ?_⟩
    rw [evalExpr_REF]
    simp only [hlet, force, hcell, hn]
  | thrown t =>
    refine ⟨h', n + 1, ?_⟩
    rw [evalExpr_REF]
    simp only [hlet, force, hcell, hn]

/-- A scope with one name. -/
def onlyName (place : ℕ) : EvaluationContext where
  typeDefs _ := none
  letDefs _ := some place
  functions _ := none

/-- What was computed at a place is reached by the use of a name. -/
theorem Computes.later {place : ℕ} {name : String} {result : Except String EVALUATED}
    (hcomputes : Computes h place name result h') : Later h (h'.memoize place name result) := by
  -- a name for the place, in a scope of its own
  have hlet : (onlyName place).letDefs name = some place := rfl
  have hforce : ∃ n, force (evalExpr n) place h =
      some (kept result, h'.memoize place name result) := by
    cases hcomputes with
    | delayed hcell heval =>
      obtain ⟨n, hn⟩ := heval
      refine ⟨n, ?_⟩
      cases result with
      | ok v => simp only [force, hcell, hn, kept]
      | error e => simp only [force, hcell, hn, kept]
    | external hcell =>
      refine ⟨0, ?_⟩
      cases result with
      | ok v => simp only [force, hcell, kept]
      | error e => simp only [force, hcell, kept]
  obtain ⟨n, hn⟩ := hforce
  have heval : Evaluates (.REF name) (onlyName place) h (kept result)
      (h'.memoize place name result) := by
    refine ⟨n + 1, ?_⟩
    rw [evalExpr_REF, hlet]
    exact hn
  exact Later.refl.evaluated heval

/-- A stored expression stays stored until it is computed, and then what it yields is kept. -/
theorem lasts_stored {place : ℕ} {name : String} (he : Yields h e ctx o) :
    Lasts fun h' => Later h h' ∧ (h'.cells[place]? = some (.delayed name e ctx) ∨
      ∃ result, kept result = o ∧ h'.cells[place]? = some (.memoized result)) where
  alloc := by
    rintro h' v ⟨hlater, hcell | ⟨result, hkept, hcell⟩⟩
    · exact ⟨hlater.alloc v, .inl (Heap.alloc_getElem?_of_some hcell)⟩
    · exact ⟨hlater.alloc v, .inr ⟨result, hkept, Heap.alloc_getElem?_of_some hcell⟩⟩
  memoize := by
    rintro h₁ h₂ place' name' result hcomputes ⟨hlater, hcell₁⟩ ⟨hlater₂, hcell₂⟩
    refine ⟨hlater.trans hcomputes.later, ?_⟩
    by_cases hplace : place' = place
    · subst hplace
      right
      obtain hcell₁ | ⟨old, -, hcell₁⟩ := hcell₁
      · -- it is this expression that was computed
        have hkept : kept result = o := by
          cases hcomputes with
          | delayed hcell heval =>
            rw [hcell] at hcell₁
            cases hcell₁
            obtain ⟨h₃, heval'⟩ := he h₁ hlater
            exact (heval.unique heval').1
          | external hcell =>
            rw [hcell] at hcell₁
            cases hcell₁
        have hlt : place' < h₂.cells.length := by
          obtain hcell | ⟨_, -, hcell⟩ := hcell₂
          · exact (List.getElem?_eq_some_iff.mp hcell).choose
          · exact (List.getElem?_eq_some_iff.mp hcell).choose
        exact ⟨result, hkept, Heap.memoize_getElem?_self hlt name' result⟩
      · -- a value that is kept is not computed again
        exact absurd hcell₁ (hcomputes.cell_ne old)
    · rw [Heap.memoize_getElem?_ne hplace]
      exact hcell₂

/-- **The name of a stored expression yields what the expression yields.** -/
theorem yields_REF_of_stored {key name : String} {place : ℕ}
    (hlet : ctx'.letDefs key = some place)
    (hcell : h.cells[place]? = some (.delayed name e ctx)) (he : Yields h e ctx o) :
    Yields h (.REF key) ctx' o := by
  intro h' hlater
  obtain ⟨-, hcell' | ⟨result, rfl, hcell'⟩⟩ :=
    hlater.invariant (lasts_stored he) ⟨.refl, .inl hcell⟩
  · obtain ⟨h'', heval⟩ := he h' hlater
    exact exists_evaluates_REF_delayed hlet hcell' heval
  · exact ⟨h', evaluates_REF_kept hlet hcell'⟩

end

/-! ## 2. Rules -/

section
variable {ctx : EvaluationContext} {h : Heap} {o : Outcome EVALUATED}

theorem yields_IF {cond ifTrue ifFalse : EXPR} {b : Bool}
    (hcond : Yields h cond ctx (.Right (.CONST_BOOLEAN b)))
    (hbranch : Yields h (if b then ifTrue else ifFalse) ctx o) :
    Yields h (.IF cond ifTrue ifFalse) ctx o := by
  intro h₁ hlater
  obtain ⟨h₂, hcond'⟩ := hcond h₁ hlater
  obtain ⟨h₃, hbranch'⟩ := hbranch h₂ (hlater.evaluated hcond')
  exact ⟨h₃, evaluates_IF hcond' hbranch'⟩

/-- The body of a declaration, wherever the value has been stored. -/
theorem yields_LET_BLOCK {name : String} {value body : EXPR}
    (hbody : ∀ h', Later h h' → Yields (h'.alloc (.delayed name value ctx)) body
      (ctx.withLet name h'.cells.length) o) :
    Yields h (.LET_BLOCK name value body) ctx o := by
  intro h₁ hlater
  obtain ⟨h₂, heval⟩ := hbody h₁ hlater _ .refl
  exact ⟨h₂, evaluates_LET_BLOCK_iff.mpr heval⟩

/-- The arguments of a call, one after another. -/
theorem exists_traverses {args : List EXPR} {vs : List EVALUATED}
    (hargs : List.Forall₂ (fun a v => Yields h a ctx (.Right v)) args vs) {h' : Heap}
    (hlater : Later h h') : ∃ h'', Traverses ctx args h' vs h'' ∧ Later h h'' := by
  induction hargs generalizing h' with
  | nil => exact ⟨h', .nil h', hlater⟩
  | cons ha _ ih =>
    obtain ⟨h₁, heval⟩ := ha h' hlater
    obtain ⟨h₂, htail, hlater₂⟩ := ih (hlater.evaluated heval)
    exact ⟨h₂, .cons heval htail, hlater₂⟩

theorem yields_NativeFunction {header : FunctionHeader} {name : String}
    {ev : List EVALUATED → Outcome EVALUATED} {args : List EXPR} {vs : List EVALUATED}
    (hfun : ctx.functions header = some (.NativeFunction name ev))
    (hargs : List.Forall₂ (fun a v => Yields h a ctx (.Right v)) args vs) :
    Yields h (.FUNCTION_CALL header args) ctx (ev vs) := by
  intro h' hlater
  obtain ⟨h'', htraverses, -⟩ := exists_traverses hargs hlater
  exact ⟨h'', evaluates_NativeFunction hfun htraverses⟩

/-- A call whose first argument fails. -/
theorem yields_of_first_fails {header : FunctionHeader} {f : BaseFunction} {a : EXPR}
    {args : List EXPR} (hfun : ctx.functions header = some f) (ha : Yields h a ctx o)
    (hfails : ∀ v, o ≠ .Right v) : Yields h (.FUNCTION_CALL header (a :: args)) ctx o := by
  intro h₁ hlater
  obtain ⟨h₂, n, hn⟩ := ha h₁ hlater
  -- the other arguments and what follows them are not looked at
  have htraverse : ∀ next : List EVALUATED → EvalM EVALUATED,
      EvalM.bind (EvalM.traverse (evalExpr n · ctx) (a :: args)) next h₁ = some (o, h₂) := by
    intro next
    cases o with
    | Right v => exact absurd rfl (hfails v)
    | Left e => simp only [EvalM.bind, EvalM.traverse, hn]
    | thrown t => simp only [EvalM.bind, EvalM.traverse, hn]
  refine ⟨h₂, n + 1, ?_⟩
  rw [evalExpr.eq_def]
  cases f with
  | NativeFunction name ev =>
    simp only [hfun]
    exact htraverse _
  | UserFunction name params body =>
    simp only [hfun]
    exact htraverse _

end

end EvaluatorV1

end Lang

end WavesNode
