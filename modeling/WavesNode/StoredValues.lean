/-
What an evaluation does to the stored values.

It stores new ones, and it keeps what it has computed: nothing else. So a property of the
stored values that both leave true is true of whatever is reached (`Later.invariant`). The
first of these is that what was kept stays: a value is read after that, not computed again.
-/
import WavesNode.EvaluatorV1

set_option autoImplicit false

namespace WavesNode

namespace Lang

theorem Heap.memoize_getElem?_ne {h : Heap} {place place' : ℕ} (hne : place ≠ place')
    (name : String) (result : Except String EVALUATED) :
    (h.memoize place name result).cells[place']? = h.cells[place']? := by
  simp [Heap.memoize, hne]

namespace EvaluatorV1

/-! ## 1. What one evaluation leaves true -/

/-- What a computation ended with, when it is kept. -/
def kept : Except String EVALUATED → Outcome EVALUATED
  | .ok v => .Right v
  | .error e => .Left e

/-- The value at a place is computed. -/
inductive Computes : Heap → ℕ → String → Except String EVALUATED → Heap → Prop where
  | delayed {h h' : Heap} {place : ℕ} {name : String} {e : EXPR} {ctx : EvaluationContext}
      {result : Except String EVALUATED} (hcell : h.cells[place]? = some (.delayed name e ctx))
      (heval : Evaluates e ctx h (kept result) h') : Computes h place name result h'
  | external {h : Heap} {place : ℕ} {name : String} {result : Except String EVALUATED}
      (hcell : h.cells[place]? = some (.external name (kept result))) :
      Computes h place name result h

/-- What the two changes of the stored values leave true. -/
structure Lasts (J : Heap → Prop) : Prop where
  alloc : ∀ h v, J h → J (h.alloc v)
  memoize : ∀ {h h' : Heap} {place : ℕ} {name : String} {result : Except String EVALUATED},
    Computes h place name result h' → J h → J h' → J (h'.memoize place name result)

/-- The computation leaves the property true. -/
def Preserves {α : Type} (J : Heap → Prop) (m : EvalM α) : Prop :=
  ∀ h o h', m h = some (o, h') → J h → J h'

section
variable {α β : Type} {J : Heap → Prop}

theorem preserves_lift (o : Outcome α) : Preserves J (EvalM.lift o) := by
  intro h o' h' hrun hJ
  obtain ⟨-, rfl⟩ := Prod.mk.inj (Option.some.inj hrun)
  exact hJ

theorem Preserves.bind {m : EvalM α} {f : α → EvalM β} (hm : Preserves J m)
    (hf : ∀ a, Preserves J (f a)) : Preserves J (EvalM.bind m f) := by
  intro h o h'' hrun hJ
  unfold EvalM.bind at hrun
  cases hfirst : m h with
  | none => simp [hfirst] at hrun
  | some first =>
    obtain ⟨o', h'⟩ := first
    have hJ' := hm h o' h' hfirst hJ
    rw [hfirst] at hrun
    cases o' with
    | Right a => exact hf a h' o h'' hrun hJ'
    | Left e =>
      obtain ⟨-, rfl⟩ := Prod.mk.inj (Option.some.inj hrun)
      exact hJ'
    | thrown t =>
      obtain ⟨-, rfl⟩ := Prod.mk.inj (Option.some.inj hrun)
      exact hJ'

theorem Preserves.traverse {f : α → EvalM β} (hf : ∀ a, Preserves J (f a)) (as : List α) :
    Preserves J (EvalM.traverse f as) := by
  induction as with
  | nil => exact preserves_lift (.Right [])
  | cons a as ih => exact (hf a).bind fun b => ih.bind fun bs => preserves_lift (.Right _)

variable (hJ : Lasts J)

include hJ

theorem preserves_letDef (ctx : EvaluationContext) (name : String) (value : EXPR) :
    Preserves J (letDef ctx name value) := by
  intro h o h' hrun hh
  obtain ⟨-, rfl⟩ := Prod.mk.inj (Option.some.inj hrun)
  exact hJ.alloc h _ hh

theorem preserves_bindArgs (ctx : EvaluationContext) (args : List (EVALUATED × String)) :
    Preserves J (bindArgs ctx args) := by
  induction args generalizing ctx with
  | nil => exact preserves_lift (.Right ctx)
  | cons p rest ih => exact (preserves_letDef hJ ctx _ _).bind fun ctx' => ih ctx'

/-- A value that is computed is kept; what is thrown is not. -/
theorem preserves_force {n : ℕ} (heval : ∀ e ctx, Preserves J (evalExpr n e ctx)) (place : ℕ) :
    Preserves J (force (evalExpr n) place) := by
  intro h o h' hrun hh
  unfold force at hrun
  cases hcell : h.cells[place]? with
  | none => simp [hcell] at hrun
  | some cell =>
    rw [hcell] at hrun
    cases cell with
    | memoized v =>
      have hsame : h' = h := by
        cases v with
        | ok v => exact (Prod.mk.inj (Option.some.inj hrun)).2.symm
        | error e => exact (Prod.mk.inj (Option.some.inj hrun)).2.symm
      rwa [hsame]
    | external name o' =>
      cases o' with
      | Right v =>
        obtain ⟨-, rfl⟩ := Prod.mk.inj (Option.some.inj hrun)
        exact hJ.memoize (.external hcell) hh hh
      | Left e =>
        obtain ⟨-, rfl⟩ := Prod.mk.inj (Option.some.inj hrun)
        exact hJ.memoize (.external hcell) hh hh
      | thrown t =>
        obtain ⟨-, rfl⟩ := Prod.mk.inj (Option.some.inj hrun)
        exact hh
    | delayed name e ctx =>
      dsimp only at hrun
      cases hcomputed : evalExpr n e ctx h with
      | none => simp [hcomputed] at hrun
      | some computed =>
        obtain ⟨o', h₁⟩ := computed
        have hh₁ := heval e ctx h o' h₁ hcomputed hh
        rw [hcomputed] at hrun
        cases o' with
        | Right v =>
          obtain ⟨-, rfl⟩ := Prod.mk.inj (Option.some.inj hrun)
          exact hJ.memoize (.delayed hcell ⟨n, hcomputed⟩) hh hh₁
        | Left e' =>
          obtain ⟨-, rfl⟩ := Prod.mk.inj (Option.some.inj hrun)
          exact hJ.memoize (.delayed hcell ⟨n, hcomputed⟩) hh hh₁
        | thrown t =>
          obtain ⟨-, rfl⟩ := Prod.mk.inj (Option.some.inj hrun)
          exact hh₁

theorem preserves_evalExpr (n : ℕ) (e : EXPR) (ctx : EvaluationContext) :
    Preserves J (evalExpr n e ctx) := by
  induction n generalizing e ctx with
  | zero =>
    intro h o h' hrun
    simp at hrun
  | succ n ih =>
    have hargs (args : List EXPR) : Preserves J (EvalM.traverse (evalExpr n · ctx) args) :=
      .traverse (fun e => ih e ctx) args
    rw [evalExpr.eq_def]
    dsimp only
    split
    · exact (preserves_letDef hJ _ _ _).bind fun ctx' => ih _ ctx'
    · exact (preserves_letDef hJ _ _ _).bind fun ctx' => ih _ ctx'
    · exact ih _ _
    · split
      · exact preserves_force hJ ih _
      · exact preserves_lift (.Left _)
    · exact preserves_lift (.Right _)
    · refine (ih _ ctx).bind fun v => ?_
      split
      · exact ih _ ctx
      · exact ih _ ctx
      · exact preserves_lift (.thrown _)
    · refine (ih _ ctx).bind fun v => ?_
      split
      · split
        · exact preserves_lift (.Right _)
        · exact preserves_lift (.Left _)
      · exact preserves_lift (.thrown _)
    · split
      · exact (hargs _).bind fun vs => (preserves_bindArgs hJ _ _).bind fun ctx' => ih _ ctx'
      · exact (hargs _).bind fun vs => preserves_lift _
      · split
        · split
          · exact (hargs _).bind fun vs => preserves_lift (.Right _)
          · exact preserves_lift (.Left _)
        · exact preserves_lift (.Left _)

end

/-! ## 2. What is reached -/

/-- The second is reached from the first, by storing values and by evaluating expressions. -/
inductive Later (h : Heap) : Heap → Prop where
  | refl : Later h h
  | alloc {h' : Heap} (hlater : Later h h') (v : LazyVal) : Later h (h'.alloc v)
  | evaluated {h' h'' : Heap} (hlater : Later h h') {e : EXPR} {ctx : EvaluationContext}
      {o : Outcome EVALUATED} (heval : Evaluates e ctx h' o h'') : Later h h''

/-- **What lasts is true of whatever is reached.** -/
theorem Later.invariant {J : Heap → Prop} (hJ : Lasts J) {h h' : Heap} (hlater : Later h h')
    (hh : J h) : J h' := by
  induction hlater with
  | refl => exact hh
  | alloc _ v ih => exact hJ.alloc _ v ih
  | evaluated _ heval ih =>
    obtain ⟨n, hn⟩ := heval
    exact preserves_evalExpr hJ n _ _ _ _ _ hn ih

/-! ## 3. What was kept stays -/

/-- What is computed was not kept before. -/
theorem Computes.cell_ne {h h' : Heap} {place : ℕ} {name : String}
    {result : Except String EVALUATED} (hcomputes : Computes h place name result h')
    (value : Except String EVALUATED) : h.cells[place]? ≠ some (.memoized value) := by
  intro hcell
  cases hcomputes with
  | delayed h₁ _ =>
    rw [hcell] at h₁
    cases h₁
  | external h₁ =>
    rw [hcell] at h₁
    cases h₁

/-- A kept value stays. -/
theorem lasts_memoized (place : ℕ) (value : Except String EVALUATED) :
    Lasts fun h => h.cells[place]? = some (.memoized value) where
  alloc := fun _ _ hcell => Heap.alloc_getElem?_of_some hcell
  memoize := by
    intro h h' q name result hcomputes hcell hcell'
    have hne : q ≠ place := by
      rintro rfl
      exact hcomputes.cell_ne value hcell
    rw [Heap.memoize_getElem?_ne hne]
    exact hcell'

/-- Nothing stored is lost. -/
theorem lasts_length (n : ℕ) : Lasts fun h => n ≤ h.cells.length where
  alloc := by
    intro h v hle
    rw [Heap.alloc, List.length_append]
    omega
  memoize := by
    intro h h' q name result _ _ hle
    rwa [Heap.memoize_length]

theorem Evaluates.length_le {e : EXPR} {ctx : EvaluationContext} {h h' : Heap}
    {o : Outcome EVALUATED} (heval : Evaluates e ctx h o h') : h.cells.length ≤ h'.cells.length :=
  (Later.refl.evaluated heval).invariant (lasts_length _) le_rfl

/-- A value that is computed is kept, and read from then on. -/
theorem later_REF_of_memoized {ctx : EvaluationContext} {h h' : Heap} {key : String} {place : ℕ}
    {v : EVALUATED} (hlet : ctx.letDefs key = some place)
    (hcell : h.cells[place]? = some (.memoized (.ok v))) (hlater : Later h h') :
    Evaluates (.REF key) ctx h' (.Right v) h' :=
  evaluates_REF_memoized hlet (hlater.invariant (lasts_memoized place (.ok v)) hcell)

/-- A name that stands for another name has its value. -/
theorem lasts_reference {ctx : EvaluationContext} {key x : String} {place place' : ℕ}
    {v : EVALUATED} (hlet : ctx.letDefs key = some place) :
    Lasts fun h => h.cells[place]? = some (.memoized (.ok v)) ∧
      (h.cells[place']? = some (.delayed x (.REF key) ctx) ∨
        h.cells[place']? = some (.memoized (.ok v))) where
  alloc := by
    rintro h w ⟨hcell, hcell' | hcell'⟩
    · exact ⟨Heap.alloc_getElem?_of_some hcell, .inl (Heap.alloc_getElem?_of_some hcell')⟩
    · exact ⟨Heap.alloc_getElem?_of_some hcell, .inr (Heap.alloc_getElem?_of_some hcell')⟩
  memoize := by
    rintro h h' q name result hcomputes ⟨hcell, hname⟩ ⟨hcell₁, hname₁⟩
    have hne : q ≠ place := by
      rintro rfl
      exact hcomputes.cell_ne (.ok v) hcell
    refine ⟨(Heap.memoize_getElem?_ne hne name result).trans hcell₁, ?_⟩
    by_cases hq : q = place'
    · -- the name itself is computed: it reads what the other name was kept as
      subst hq
      rcases hname with hdelayed | hkept
      · have hread := evaluates_REF_memoized hlet hcell
        cases hcomputes with
        | external hexternal =>
          rw [hdelayed] at hexternal
          cases hexternal
        | delayed hdelayed' heval =>
          rw [hdelayed] at hdelayed'
          cases hdelayed'
          obtain ⟨hresult, rfl⟩ := heval.unique hread
          have hok : result = .ok v := by
            cases result with
            | ok w => exact congrArg Except.ok (Outcome.Right.inj hresult)
            | error e => cases hresult
          obtain ⟨hlt, -⟩ := List.getElem?_eq_some_iff.mp hdelayed
          rw [hok]
          exact .inr (Heap.memoize_getElem?_self hlt x _)
      · exact absurd hkept (hcomputes.cell_ne (.ok v))
    · rw [Heap.memoize_getElem?_ne hq]
      exact hname₁

end EvaluatorV1

end Lang

end WavesNode
