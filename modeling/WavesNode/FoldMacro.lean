/-
`FOLD<n>(list, acc, f)`, a loop that the parser unrolls.

The language has no loops. The macro stores the list, its size and the first accumulator, and
then as many steps as the limit allows: each compares the size with a number, and goes on with
the next accumulator or ends with the last. Behind the last step it throws.

What the parser makes of it is compiled and evaluated as any expression. The result is the
fold of the list, from the accumulator on and one element after another, if the list is no
longer than the limit, and the error that it is longer otherwise (`yields_unwrapFold`). The
accumulators are stored and computed from the last back to the first, and each is computed
once.
-/
import WavesNode.DelayedValues
import WavesNode.IndexFunctions
import WavesNode.MatchCompilation

set_option autoImplicit false

namespace WavesNode

namespace Lang

open Expressions (Pos PART)

/-! ## 1. The macro -/

namespace Macro

/-- A name that no program can write: the places of the macro are in it. -/
def name (pos : Pos) (v : String) : String := "$" ++ v ++ (toString pos.start ++ toString pos.end)

def ref (pos : Pos) (v : String) : Expressions.EXPR := .REF pos (.VALID pos (name pos v))

def call (pos : Pos) (func : PART String) (args : List Expressions.EXPR) : Expressions.EXPR :=
  .FUNCTION_CALL pos func args

/-- A declaration and what it is for. -/
def block (pos : Pos) (v : String) (value expr : Expressions.EXPR) : Expressions.EXPR :=
  .BLOCK pos (.LET pos (.VALID pos (name pos v)) value [] false) expr

def long (pos : Pos) (n : ℕ) : Expressions.EXPR := .CONST_LONG pos (Int64.ofNat n)

def accName (n : ℕ) : String := "acc" ++ toString n

/-- The next accumulator. -/
def nextAcc (pos : Pos) (func : PART String) (n : ℕ) : Expressions.EXPR :=
  call pos func [ref pos (accName n),
    call pos (.VALID pos "getElement") [ref pos "list", long pos n]]

/-- `stepRec`: the steps from one on, by how many there still are. -/
def stepRec (pos : Pos) (total : ℕ) (func : PART String) : ℕ → ℕ → Expressions.EXPR
  | 0, _ =>
    call pos (.VALID pos "throw") [.CONST_STRING pos (.VALID pos s!"List size exceed {total}")]
  | k + 1, n =>
    .IF pos (call pos (.VALID pos "==") [ref pos "size", long pos n]) (ref pos (accName n))
      (block pos (accName (n + 1)) (nextAcc pos func n) (stepRec pos total func k (n + 1)))

def unwrapFold (pos : Pos) (limit : ℕ) (list acc : Expressions.EXPR) (func : PART String) :
    Expressions.EXPR :=
  if limit < 1 then .INVALID pos "FOLD limit should be natural"
  else
    block pos "list" list <|
      block pos "size" (call pos (.VALID pos "size") [ref pos "list"]) <|
        block pos (accName 0) acc (stepRec pos limit func (limit + 1) 0)

theorem name_inj {pos : Pos} {v w : String} (h : name pos v = name pos w) : v = w := by
  have hlist := congrArg String.toList h
  simp only [name, String.toList_append] at hlist
  exact String.toList_injective (List.append_cancel_left (List.append_cancel_right hlist))

theorem accName_ne (n : ℕ) : accName n ≠ "list" ∧ accName n ≠ "size" := by
  have hne : ∀ s : String, s.toList.head? ≠ some 'a' → accName n ≠ s := by
    rintro s hs rfl
    apply hs
    rw [accName, String.toList_append]
    rfl
  exact ⟨hne "list" (by decide), hne "size" (by decide)⟩

end Macro

/-! ## 2. The functions that it calls -/

mutual

/-- `==` of two values. Objects of one type have their fields in one order. -/
def EVALUATED.same : EVALUATED → EVALUATED → Bool
  | .CONST_LONG a, .CONST_LONG b => a = b
  | .CONST_BYTESTR a, .CONST_BYTESTR b => a = b
  | .CONST_STRING a, .CONST_STRING b => a = b
  | .CONST_BOOLEAN a, .CONST_BOOLEAN b => a = b
  | .CaseObj s xs, .CaseObj t ys => s == t && sameObjects xs ys
  | .ARR xs, .ARR ys => sameValues xs ys
  | _, _ => false

def sameValues : List EVALUATED → List EVALUATED → Bool
  | [], [] => true
  | x :: xs, y :: ys => x.same y && sameValues xs ys
  | _, _ => false

def sameObjects : List (String × EVALUATED) → List (String × EVALUATED) → Bool
  | [], [] => true
  | (s, x) :: xs, (t, y) :: ys => s == t && x.same y && sameObjects xs ys
  | _, _ => false

end

namespace PureContext

def eqDefinition : Definition where
  header := .Native 0
  function := .NativeFunction "==" fun
    | [a, b] => .Right (.CONST_BOOLEAN (a.same b))
    | xs => notImplemented "==(a: T, b: T)" xs

def getElementDefinition : Definition where
  header := .Native 401
  function := .NativeFunction "getElement" fun
    | [.ARR arr, .CONST_LONG pos] => getElement arr pos
    | xs => notImplemented "getElement(arr: Array, pos: Int)" xs

def getListSize : Definition where
  header := .Native 400
  function := .NativeFunction "size" fun
    | [.ARR arr] => .Right (.CONST_LONG (Int64.ofNat arr.length))
    | xs => notImplemented "size(arr: Array)" xs

/-- What the code of the macro calls. -/
def ofFold : List Definition :=
  [eqDefinition, throwWithMessage, getElementDefinition, getListSize]

/-! ### Their signatures -/

def eqSignature : FunctionTypeSignature where
  result := .final (.real .BOOLEAN)
  args := [("a", .TYPEPARAM 84), ("b", .TYPEPARAM 84)]
  header := eqDefinition.header

def throwSignatures : List FunctionTypeSignature :=
  [⟨.final .NOTHING, [("err", .final (.real .STRING))], throwWithMessage.header⟩,
    ⟨.final .NOTHING, [], throwNoMessage.header⟩]

def getElementSignature : FunctionTypeSignature where
  result := .TYPEPARAM 84
  args := [("arr", .PARAMETERIZEDLIST (.TYPEPARAM 84)), ("pos", .final (.real .LONG))]
  header := getElementDefinition.header

/-- `size` of a byte vector, of a string and of a list. -/
def sizeSignatures : List FunctionTypeSignature :=
  [⟨.final (.real .LONG), [("byteVector", .final (.real .BYTESTR))], .Native 200⟩,
    ⟨.final (.real .LONG), [("xs", .final (.real .STRING))], .Native 305⟩,
    ⟨.final (.real .LONG), [("arr", .PARAMETERIZEDLIST (.TYPEPARAM 84))], getListSize.header⟩]

end PureContext

/-- The names of these functions stand for them. -/
structure CompilerContext.KnowsFold (c : CompilerContext) : Prop where
  eq : c.functionTypeSignaturesByName "==" = [PureContext.eqSignature]
  throw : c.functionTypeSignaturesByName "throw" = PureContext.throwSignatures
  getElement : c.functionTypeSignaturesByName "getElement" = [PureContext.getElementSignature]
  size : c.functionTypeSignaturesByName "size" = PureContext.sizeSignatures

theorem CompilerContext.KnowsFold.withVar {c : CompilerContext} (hc : c.KnowsFold) (x : String)
    (t : FINAL) : (c.withVar x t).KnowsFold :=
  ⟨hc.eq, hc.throw, hc.getElement, hc.size⟩

/-! ## 3. What a call compiles to -/

section Compiled

open CompileM ExpressionCompiler

variable [FINAL.SetOrder] {c : CompilerContext}

theorem compiles_CONST_LONG {p : Pos} {value : Long} {code : EXPR} {t : FINAL}
    (h : Compiles c (.CONST_LONG p value) code t) : code = .evaluated (.CONST_LONG value) := by
  obtain ⟨n, c₁, c', hn⟩ := h
  cases n with
  | zero => exact absurd hn returns_outOfFuel
  | succ n =>
    have hpure := returns_get_bind.mp hn
    have hresult := (returns_pure.mp hpure).1
    simp only [Prod.mk.injEq] at hresult
    exact hresult.2.1.symm

theorem compiles_mapM {n : ℕ} {args : List Expressions.EXPR} {compiledArgs : List (EXPR × FINAL)}
    {c' : CompilerContext}
    (h : Returns (args.mapM (compileExpr (compileExprWithCtx n))) c compiledArgs c') :
    List.Forall₂ (fun a r => Compiles c a r.1 r.2) args compiledArgs := by
  induction args generalizing c compiledArgs with
  | nil =>
    rw [← (returns_pure.mp h).1]
    exact .nil
  | cons a args ih =>
    obtain ⟨r, c₁, rs, ha, hargs, rfl⟩ := returns_mapM_cons.mp h
    have hkept := keeps_compileExpr (keeps_compileExprWithCtx n) _ _ _ _ ha
    rw [hkept] at hargs
    exact .cons (compiles_of_compileExpr ha) (ih hargs)

theorem matchedSigs_eq_ok {p : Pos} {name : String} {args : List (EXPR × FINAL)}
    {sigs : List FunctionTypeSignature} {calls : List (EXPR × FINAL)}
    (h : matchedSigs p name args sigs = .ok calls) :
    ∀ r ∈ calls, ∃ f ∈ sigs, matchFuncOverload p name args.length args f = .ok r := by
  induction sigs generalizing calls with
  | nil =>
    cases h
    intro r hr
    cases hr
  | cons f fs ih =>
    rw [matchedSigs] at h
    intro r hr
    cases hf : matchFuncOverload p name args.length args f with
    | error e =>
      rw [hf] at h
      cases e with
      | left e =>
        obtain ⟨g, hg, hmatch⟩ := ih h r hr
        exact ⟨g, List.mem_cons_of_mem f hg, hmatch⟩
      | thrown => cases h
    | ok call =>
      rw [hf] at h
      cases hrest : matchedSigs p name args fs with
      | error e =>
        rw [hrest] at h
        cases h
      | ok rest =>
        rw [hrest] at h
        cases h
        obtain rfl | hmem := List.mem_cons.mp hr
        · exact ⟨f, List.mem_cons_self, hf⟩
        · obtain ⟨g, hg, hmatch⟩ := ih hrest r hmem
          exact ⟨g, List.mem_cons_of_mem f hg, hmatch⟩

theorem resolveCall_eq_ok {p : Pos} {name : String} {args : List (EXPR × FINAL)}
    {sigs : List FunctionTypeSignature} {r : EXPR × FINAL}
    (h : resolveCall p name sigs args = .ok r) :
    ∃ f ∈ sigs, matchFuncOverload p name args.length args f = .ok r := by
  unfold resolveCall at h
  split at h
  · cases h
  · exact ⟨_, List.mem_cons_self, h⟩
  · cases hmatched : matchedSigs p name args sigs with
    | error e =>
      rw [hmatched] at h
      cases h
    | ok calls =>
      rw [hmatched] at h
      dsimp only [bind, Except.bind] at h
      split at h
      · cases h
      · cases h
        exact matchedSigs_eq_ok hmatched r List.mem_cons_self
      · cases h

/-- A call is compiled with its arguments, and has a signature that takes them. -/
theorem compiles_FUNCTION_CALL {p q : Pos} {name : String} {args : List Expressions.EXPR}
    {code : EXPR} {t : FINAL} (h : Compiles c (.FUNCTION_CALL p (.VALID q name) args) code t) :
    ∃ f ∈ c.functionTypeSignaturesByName name, ∃ compiledArgs : List (EXPR × FINAL),
      List.Forall₂ (fun a r => Compiles c a r.1 r.2) args compiledArgs ∧
      matchFuncOverload p name compiledArgs.length compiledArgs f = .ok (code, t) := by
  obtain ⟨n, c₁, c', hn⟩ := h
  cases n with
  | zero => exact absurd hn returns_outOfFuel
  | succ n =>
    have hcall : Returns (compileFunctionCall (compileExprWithCtx n) p (.VALID q name) args) c
      (c₁, code, t) c' := hn
    rw [compileFunctionCall, returns_get_bind, returns_valid_bind] at hcall
    obtain ⟨compiledArgs, _, hmap, hresult⟩ := returns_bind.mp hcall
    obtain ⟨call, _, hlift, hpure⟩ := returns_bind.mp hresult
    have hcallCode := (returns_pure.mp hpure).1
    simp only [Prod.mk.injEq] at hcallCode
    obtain ⟨-, rfl⟩ := hcallCode
    obtain ⟨f, hf, hmatch⟩ := resolveCall_eq_ok (returns_lift.mp hlift).1
    exact ⟨f, hf, compiledArgs, compiles_mapM hmap, hmatch⟩

theorem length_eq_of_matchFuncOverload {p : Pos} {name : String} {args : List (EXPR × FINAL)}
    {f : FunctionTypeSignature} {r : EXPR × FINAL}
    (h : matchFuncOverload p name args.length args f = .ok r) : args.length = f.args.length := by
  by_contra hne
  rw [matchFuncOverload, if_pos hne] at h
  cases h

/-- A call whose header is known. -/
theorem code_of_matchFuncOverload {p : Pos} {name : String} {args : List (EXPR × FINAL)}
    {f : FunctionTypeSignature} {code : EXPR} {t : FINAL}
    (h : matchFuncOverload p name args.length args f = .ok (code, t)) :
    code = .FUNCTION_CALL f.header (args.map Prod.fst) := by
  have hlength := length_eq_of_matchFuncOverload h
  have hzip := congrArg (List.map Prod.fst) (List.map_fst_zip hlength.le)
  rw [List.map_map] at hzip
  rw [show code = _ from matchFuncOverload_eq_ok h]
  exact congrArg (EXPR.FUNCTION_CALL f.header) hzip

/-- The first argument is of the type that the signature takes. -/
theorem matchTypes_of_matchFuncOverload {p : Pos} {name : String} {arg : EXPR × FINAL}
    {args : List (EXPR × FINAL)} {f : FunctionTypeSignature} {param : String × TYPE}
    {params : List (String × TYPE)} {r : EXPR × FINAL} (hf : f.args = param :: params)
    (h : matchFuncOverload p name (arg :: args).length (arg :: args) f = .ok r) :
    ∃ m, TypeInferrer.matchTypes param.2 arg.2 = .ok m := by
  cases hmatch : TypeInferrer.matchTypes param.2 arg.2 with
  | ok m => exact ⟨m, rfl⟩
  | error e =>
    have hinfer : TypeInferrer.infer
        (((arg :: args).map Prod.snd).zip (f.args.map Prod.snd)) = .error e := by
      simp [TypeInferrer.infer, hf, hmatch, List.mapM_cons, bind, Except.bind]
    rw [matchFuncOverload, if_neg (not_not_intro (length_eq_of_matchFuncOverload h))] at h
    simp only [hinfer] at h
    cases e with
    | left e => cases h
    | thrown => cases h

/-- What is passed to `getElement` is a list. -/
theorem eq_list_of_getElement {p : Pos} {name : String} {arg : EXPR × FINAL}
    {args : List (EXPR × FINAL)} {r : EXPR × FINAL}
    (h : matchFuncOverload p name (arg :: args).length (arg :: args)
      PureContext.getElementSignature = .ok r) : ∃ s, arg.2 = .list s := by
  obtain ⟨m, hmatch⟩ := matchTypes_of_matchFuncOverload rfl h
  obtain hlist | hnot := FINAL.list_cases arg.2
  · exact hlist
  · rw [TypeInferrer.matchTypes] at hmatch
    · cases hmatch
    · exact hnot

/-- Of a list, `size` is the size of a list. -/
theorem header_of_size {p : Pos} {name : String} {arg : EXPR × FINAL} {args : List (EXPR × FINAL)}
    {r : EXPR × FINAL} {f : FunctionTypeSignature} (hf : f ∈ PureContext.sizeSignatures)
    {s : FINAL} (harg : arg.2 = .list s)
    (h : matchFuncOverload p name (arg :: args).length (arg :: args) f = .ok r) :
    f.header = PureContext.getListSize.header := by
  have hother : ∀ t : REAL, (∀ u, t ≠ .LIST u) →
      ∀ m, TypeInferrer.matchTypes (.final (.real t)) (.list s) ≠ .ok m := by
    intro t hlist m hmatch
    have hmem : ∀ r, r ∈ (TypeInferrer.membersOf (.list s)).typeList ↔ r = .LIST s := by
      intro r
      rw [TypeInferrer.membersOf, FINAL.mem_create_real, FINAL.typeList_real, List.mem_singleton]
    have hge : (FINAL.real t).ge (TypeInferrer.membersOf (.list s)) = false := by
      rw [FINAL.ge_eq_members (by simp) (by simp [TypeInferrer.membersOf, FINAL.create])
        (by simp [hlist]), List.all_eq_false]
      refine ⟨.LIST s, (hmem _).mpr rfl, ?_⟩
      simp [(hlist s).symm]
    rw [TypeInferrer.matchTypes, TypeInferrer.matchFinal, hge] at hmatch
    · cases hmatch
    · intro tp u h'
      exact absurd (FINAL.real.inj h') (hlist tp)
  rw [PureContext.sizeSignatures, List.mem_cons, List.mem_cons, List.mem_singleton] at hf
  obtain rfl | rfl | rfl := hf
  · obtain ⟨m, hmatch⟩ := matchTypes_of_matchFuncOverload rfl h
    rw [harg] at hmatch
    exact absurd hmatch (hother .BYTESTR (by simp) m)
  · obtain ⟨m, hmatch⟩ := matchTypes_of_matchFuncOverload rfl h
    rw [harg] at hmatch
    exact absurd hmatch (hother .STRING (by simp) m)
  · rfl

/-! ## 4. The code of the macro -/

namespace Macro

/-- A reference to what the macro has stored, and a number. -/
def refCode (pos : Pos) (v : String) : EXPR := .REF (name pos v)

def longCode (n : ℕ) : EXPR := .evaluated (.CONST_LONG (Int64.ofNat n))

/-- The next accumulator. -/
def nextAccCode (pos : Pos) (header : FunctionHeader) (n : ℕ) : EXPR :=
  .FUNCTION_CALL header [refCode pos (accName n),
    .FUNCTION_CALL PureContext.getElementDefinition.header [refCode pos "list", longCode n]]

/-- The code of the steps; every step has a header of its own. -/
inductive StepsCode (pos : Pos) (total : ℕ) (headers : FunctionHeader → Prop) :
    ℕ → ℕ → EXPR → Prop where
  | exceeded (n : ℕ) {s : ConstString} (hs : s.s = s!"List size exceed {total}") :
      StepsCode pos total headers 0 n
        (.FUNCTION_CALL PureContext.throwWithMessage.header [.evaluated (.CONST_STRING s)])
  | step {k n : ℕ} {header : FunctionHeader} {next : EXPR} (hheader : headers header)
      (hnext : StepsCode pos total headers k (n + 1) next) :
      StepsCode pos total headers (k + 1) n
        (.IF (.FUNCTION_CALL PureContext.eqDefinition.header [refCode pos "size", longCode n])
          (refCode pos (accName n))
          (.LET_BLOCK (name pos (accName (n + 1))) (nextAccCode pos header n) next))

/-- A call of one signature with two arguments. -/
theorem compiles_call_two {p q : Pos} {func : String} {x y : Expressions.EXPR} {code : EXPR}
    {t : FINAL} (h : Compiles c (call p (.VALID q func) [x, y]) code t) :
    ∃ f ∈ c.functionTypeSignaturesByName func, ∃ cx tx cy ty, Compiles c x cx tx ∧
      Compiles c y cy ty ∧ code = .FUNCTION_CALL f.header [cx, cy] ∧
      matchFuncOverload p func [(cx, tx), (cy, ty)].length [(cx, tx), (cy, ty)] f =
        .ok (code, t) := by
  obtain ⟨f, hf, compiledArgs, hargs, hmatch⟩ := compiles_FUNCTION_CALL h
  have hcode := code_of_matchFuncOverload hmatch
  obtain ⟨⟨cx, tx⟩, rest, hx, hrest, rfl⟩ := List.forall₂_cons_left_iff.mp hargs
  obtain ⟨⟨cy, ty⟩, rest', hy, hrest', rfl⟩ := List.forall₂_cons_left_iff.mp hrest
  obtain rfl := List.forall₂_nil_left_iff.mp hrest'
  exact ⟨f, hf, cx, tx, cy, ty, hx, hy, hcode, hmatch⟩

theorem compiles_call_one {p q : Pos} {func : String} {x : Expressions.EXPR} {code : EXPR}
    {t : FINAL} (h : Compiles c (call p (.VALID q func) [x]) code t) :
    ∃ f ∈ c.functionTypeSignaturesByName func, ∃ cx tx, Compiles c x cx tx ∧
      code = .FUNCTION_CALL f.header [cx] ∧
      matchFuncOverload p func [(cx, tx)].length [(cx, tx)] f = .ok (code, t) := by
  obtain ⟨f, hf, compiledArgs, hargs, hmatch⟩ := compiles_FUNCTION_CALL h
  have hcode := code_of_matchFuncOverload hmatch
  obtain ⟨⟨cx, tx⟩, rest, hx, hrest, rfl⟩ := List.forall₂_cons_left_iff.mp hargs
  obtain rfl := List.forall₂_nil_left_iff.mp hrest
  exact ⟨f, hf, cx, tx, hx, hcode, hmatch⟩

/-- The next accumulator is compiled to its code, and what it reads is a list. -/
theorem compiles_nextAcc (hc : c.KnowsFold) {pos q : Pos} {func : String} {n : ℕ} {code : EXPR}
    {t : FINAL} (h : Compiles c (nextAcc pos (.VALID q func) n) code t) :
    (∃ f ∈ c.functionTypeSignaturesByName func, code = nextAccCode pos f.header n) ∧
      ∃ s, c.varDefs (name pos "list") = some (.list s) := by
  obtain ⟨f, hf, cx, tx, cy, ty, hx, hy, rfl, -⟩ := compiles_call_two h
  obtain ⟨rfl, -⟩ := compiles_REF hx
  obtain ⟨g, hg, ca, ta, cb, tb, ha, hb, rfl, hmatch⟩ := compiles_call_two hy
  obtain ⟨rfl, hlist⟩ := compiles_REF ha
  rw [compiles_CONST_LONG hb] at hmatch ⊢
  rw [hc.getElement, List.mem_singleton] at hg
  subst hg
  obtain ⟨s, rfl⟩ := eq_list_of_getElement hmatch
  exact ⟨⟨f, hf, rfl⟩, s, hlist⟩

theorem compiles_size_eq (hc : c.KnowsFold) {pos : Pos} {n : ℕ} {code : EXPR} {t : FINAL}
    (h : Compiles c (call pos (.VALID pos "==") [ref pos "size", long pos n]) code t) :
    code = .FUNCTION_CALL PureContext.eqDefinition.header [refCode pos "size", longCode n] := by
  obtain ⟨f, hf, cx, tx, cy, ty, hx, hy, rfl, -⟩ := compiles_call_two h
  obtain ⟨rfl, -⟩ := compiles_REF hx
  rw [compiles_CONST_LONG hy]
  rw [hc.eq, List.mem_singleton] at hf
  rw [hf]
  rfl

theorem compiles_exceeded (hc : c.KnowsFold) {pos : Pos} {message : String} {code : EXPR}
    {t : FINAL} (h : Compiles c (call pos (.VALID pos "throw")
      [.CONST_STRING pos (.VALID pos message)]) code t) :
    ∃ s : ConstString, s.s = message ∧
      code = .FUNCTION_CALL PureContext.throwWithMessage.header [.evaluated (.CONST_STRING s)] := by
  obtain ⟨f, hf, cx, tx, hx, rfl, hmatch⟩ := compiles_call_one h
  obtain ⟨s, hs, rfl⟩ := compiles_CONST_STRING hx
  have hlength := length_eq_of_matchFuncOverload hmatch
  rw [hc.throw, PureContext.throwSignatures, List.mem_cons, List.mem_singleton] at hf
  obtain rfl | rfl := hf
  · exact ⟨s, hs, rfl⟩
  · cases hlength

/-- A step: its condition, and a declaration of the next accumulator. -/
theorem compiles_step (hc : c.KnowsFold) {pos q : Pos} {func : String} {total k n : ℕ}
    {code : EXPR} {t : FINAL}
    (h : Compiles c (stepRec pos total (.VALID q func) (k + 1) n) code t) :
    ∃ f ∈ c.functionTypeSignaturesByName func, ∃ next u v,
      Compiles (c.withVar (name pos (accName (n + 1))) u)
        (stepRec pos total (.VALID q func) k (n + 1)) next v ∧
      (∃ s, c.varDefs (name pos "list") = some (.list s)) ∧
      code = .IF (.FUNCTION_CALL PureContext.eqDefinition.header [refCode pos "size", longCode n])
        (refCode pos (accName n))
        (.LET_BLOCK (name pos (accName (n + 1))) (nextAccCode pos f.header n) next) := by
  obtain ⟨ca, ta, cb, tb, cd, td, rfl, ha, hb, hd⟩ := compiles_IF h
  obtain ⟨x, valueCode, t₀, next, ⟨p', hx⟩, hvalue, hnext, rfl⟩ := compiles_BLOCK_LET hd
  cases hx
  obtain ⟨⟨f, hf, rfl⟩, hlist⟩ := compiles_nextAcc hc hvalue
  obtain ⟨rfl, -⟩ := compiles_REF hb
  rw [compiles_size_eq hc ha]
  exact ⟨f, hf, next, _, _, hnext, hlist, rfl⟩

/-- A header that the name of the function may be compiled to. -/
def IsHeader (c : CompilerContext) (func : String) (header : FunctionHeader) : Prop :=
  ∃ f ∈ c.functionTypeSignaturesByName func, f.header = header

theorem stepsCode_of_compiles (hc : c.KnowsFold) {pos q : Pos} {func : String} {total k n : ℕ}
    {code : EXPR} {t : FINAL}
    (h : Compiles c (stepRec pos total (.VALID q func) k n) code t) :
    StepsCode pos total (IsHeader c func) k n code := by
  induction k generalizing c n code t with
  | zero =>
    obtain ⟨s, hs, rfl⟩ := compiles_exceeded hc h
    exact .exceeded n hs
  | succ k ih =>
    obtain ⟨f, hf, next, u, v, hnext, -, rfl⟩ := compiles_step hc h
    exact .step ⟨f, hf, rfl⟩ (ih (hc.withVar _ u) hnext)

/-- The code of the macro: three declarations, and the steps. -/
def foldCode (pos : Pos) (listCode accCode steps : EXPR) : EXPR :=
  .LET_BLOCK (name pos "list") listCode <|
    .LET_BLOCK (name pos "size")
      (.FUNCTION_CALL PureContext.getListSize.header [refCode pos "list"]) <|
      .LET_BLOCK (name pos (accName 0)) accCode steps

/-- **What the macro compiles to.** -/
theorem compiles_unwrapFold (hc : c.KnowsFold) {pos q : Pos} {limit : ℕ}
    {list acc : Expressions.EXPR} {func : String} {code : EXPR} {t : FINAL}
    (h : Compiles c (unwrapFold pos limit list acc (.VALID q func)) code t) :
    ∃ listCode u accCode v w steps, Compiles c list listCode u ∧
      Compiles ((c.withVar (name pos "list") u).withVar (name pos "size") v) acc accCode w ∧
      StepsCode pos limit (IsHeader c func) (limit + 1) 0 steps ∧
      code = foldCode pos listCode accCode steps := by
  unfold unwrapFold at h
  split at h
  · -- without a natural limit there is nothing to compile
    obtain ⟨n, c₁, c', hn⟩ := h
    cases n with
    | zero => exact absurd hn returns_outOfFuel
    | succ n => exact absurd hn returns_raiseError
  · obtain ⟨x, listCode, u, code₁, ⟨p₁, hx⟩, hlist, h₁, rfl⟩ := compiles_BLOCK_LET h
    cases hx
    obtain ⟨x, sizeCode, v, code₂, ⟨p₂, hx⟩, hsize, h₂, rfl⟩ := compiles_BLOCK_LET h₁
    cases hx
    obtain ⟨x, accCode, w, steps, ⟨p₃, hx⟩, hacc, h₃, rfl⟩ := compiles_BLOCK_LET h₂
    cases hx
    have hknows := ((hc.withVar (name pos "list") u).withVar (name pos "size") v).withVar
      (name pos (accName 0)) w
    -- the first step reads an element, so it is a list
    obtain ⟨-, -, -, -, -, -, ⟨s, hvar⟩, -⟩ := compiles_step hknows h₃
    have hu : u = .list s := by
      have hne : name pos "list" ≠ name pos (accName 0) :=
        fun hsame => (accName_ne 0).1 (name_inj hsame).symm
      have hne' : name pos "list" ≠ name pos "size" := fun hsame => by
        have hsame' := name_inj hsame
        revert hsame'
        decide
      simpa [CompilerContext.withVar, Function.update_of_ne hne, Function.update_of_ne hne',
        handleTypeUnion] using hvar
    obtain ⟨f, hf, cx, tx, hx, rfl, hmatch⟩ := compiles_call_one hsize
    obtain ⟨rfl, htype⟩ := compiles_REF hx
    have htx : tx = .list s := by
      simpa [CompilerContext.withVar, handleTypeUnion, hu, eq_comm] using htype
    have hheader := header_of_size (hc.size ▸ hf) htx hmatch
    refine ⟨listCode, u, accCode, v, w, steps, hlist, hacc, stepsCode_of_compiles hknows h₃, ?_⟩
    rw [hheader]
    rfl

end Macro

end Compiled

/-! ## 5. What the code evaluates to -/

section Evaluated

open CompileM EvaluatorV1 ExpressionCompiler

namespace Macro

/-- A scope with other names of the macro. -/
structure SameScope (pos : Pos) (ctx ctx' : EvaluationContext) : Prop where
  typeDefs : ctx'.typeDefs = ctx.typeDefs
  functions : ctx'.functions = ctx.functions
  letDefs : ∀ key, (∀ v, key ≠ name pos v) → ctx'.letDefs key = ctx.letDefs key

/-- Whatever is added to the scope and to the stored values, a call of the header computes `F`
of the results of its arguments, and fails as its first argument does. -/
def Implements (pos : Pos) (ctx : EvaluationContext) (h : Heap)
    (F : EVALUATED → EVALUATED → Outcome EVALUATED) (header : FunctionHeader) : Prop :=
  ∀ ctx' h' a x o v, SameScope pos ctx ctx' → Later h h' → Yields h' a ctx' o →
    Yields h' x ctx' (.Right v) →
    Yields h' (.FUNCTION_CALL header [a, x]) ctx' (o.andThen fun acc => F acc v)

/-- The fold of the list, one element after another. -/
def folded (F : EVALUATED → EVALUATED → Outcome EVALUATED) (o : Outcome EVALUATED)
    (xs : List EVALUATED) : Outcome EVALUATED :=
  xs.foldl (fun o x => o.andThen fun acc => F acc x) o

/-- What the macro comes to. -/
def outcome (F : EVALUATED → EVALUATED → Outcome EVALUATED) (limit : ℕ) (o : Outcome EVALUATED)
    (xs : List EVALUATED) : Outcome EVALUATED :=
  if xs.length ≤ limit then folded F o xs else .Left s!"List size exceed {limit}"

variable {pos : Pos} {ctx ctx' : EvaluationContext} {h h' : Heap}
  {F : EVALUATED → EVALUATED → Outcome EVALUATED} {o : Outcome EVALUATED} {xs : List EVALUATED}

theorem SameScope.refl : SameScope pos ctx ctx := ⟨rfl, rfl, fun _ _ => rfl⟩

theorem SameScope.withLet (hscope : SameScope pos ctx ctx') (v : String) (place : ℕ) :
    SameScope pos ctx (ctx'.withLet (name pos v) place) where
  typeDefs := hscope.typeDefs
  functions := hscope.functions
  letDefs := by
    intro key hkey
    rw [EvaluationContext.withLet_letDefs_ne (hkey v)]
    exact hscope.letDefs key hkey

/-- It is enough that the calls with a result as the first argument are computed: a first
argument that fails ends any call. -/
theorem implements_of_results {header : FunctionHeader} {f : BaseFunction}
    (hfun : ctx.functions header = some f)
    (hcall : ∀ ctx' h' a x acc v, SameScope pos ctx ctx' → Later h h' →
      Yields h' a ctx' (.Right acc) → Yields h' x ctx' (.Right v) →
        Yields h' (.FUNCTION_CALL header [a, x]) ctx' (F acc v)) :
    Implements pos ctx h F header := by
  intro ctx' h' a x o v hscope hlater ha hx
  have hfun' : ctx'.functions header = some f := by
    rw [hscope.functions, hfun]
  cases o with
  | Right acc => exact hcall ctx' h' a x acc v hscope hlater ha hx
  | Left e => exact yields_of_first_fails hfun' ha (by simp [Outcome.andThen])
  | thrown t => exact yields_of_first_fails hfun' ha (by simp [Outcome.andThen])

/-- A function that the context brings, of two values. -/
theorem implements_NativeFunction {header : FunctionHeader} {fname : String}
    {ev : List EVALUATED → Outcome EVALUATED}
    (hfun : ctx.functions header = some (.NativeFunction fname ev)) :
    Implements pos ctx h (fun acc x => ev [acc, x]) header := by
  apply implements_of_results hfun
  intro ctx' h' a x acc v hscope _ ha hx
  rw [← hscope.functions] at hfun
  exact yields_NativeFunction hfun (.cons ha (.cons hx .nil))

/-- The scope of the body of a declared function, and the stored values there. -/
def parameters (ctx : EvaluationContext) (h : Heap) (p₁ p₂ : String) (acc x : EVALUATED) :
    EvaluationContext × Heap :=
  let ctx₁ := ctx.withLet p₁ h.cells.length
  let h₁ := h.alloc (.delayed p₁ (.evaluated acc) ctx)
  (ctx₁.withLet p₂ h₁.cells.length, h₁.alloc (.delayed p₂ (.evaluated x) ctx₁))

/-- A declared function, by its body. -/
theorem implements_UserFunction {header : FunctionHeader} {fname p₁ p₂ : String} {body : EXPR}
    (hfun : ctx.functions header = some (.UserFunction fname [p₁, p₂] body))
    (hbody : ∀ ctx' h' acc x, SameScope pos ctx ctx' → Later h h' →
      Yields (parameters ctx' h' p₁ p₂ acc x).2 body (parameters ctx' h' p₁ p₂ acc x).1
        (F acc x)) : Implements pos ctx h F header := by
  apply implements_of_results hfun
  intro ctx' h' a x acc v hscope hlater ha hx
  rw [← hscope.functions] at hfun
  intro h₁ hlater₁
  -- the body is evaluated where the arguments have been
  obtain ⟨h₂, hargs, hlater₂⟩ := exists_traverses (.cons ha (.cons hx .nil)) hlater₁
  obtain ⟨h₃, heval⟩ := hbody ctx' h₂ acc v hscope (hlater.trans hlater₂) _ .refl
  exact ⟨h₃, evaluates_UserFunction hfun hargs rfl heval⟩

/-- What a step needs of the scope and of the stored values: the list, its size, and an
accumulator that yields the fold of the first elements. -/
structure Ready (pos : Pos) (ctx : EvaluationContext) (h : Heap)
    (F : EVALUATED → EVALUATED → Outcome EVALUATED) (o : Outcome EVALUATED) (xs : List EVALUATED)
    (n : ℕ) : Prop where
  list : Yields h (refCode pos "list") ctx (.Right (.ARR xs))
  size : Yields h (refCode pos "size") ctx (.Right (.CONST_LONG (Int64.ofNat xs.length)))
  acc : Yields h (refCode pos (accName n)) ctx (folded F o (xs.take n))

theorem ofNat_eq_ofNat_iff {m n : ℕ} (hm : m < 2 ^ 63) (hn : n < 2 ^ 63) :
    Int64.ofNat m = Int64.ofNat n ↔ m = n := by
  constructor
  · intro hsame
    have hint := congrArg Int64.toInt hsame
    rw [Int64.toInt_ofNat_of_lt hm, Int64.toInt_ofNat_of_lt hn] at hint
    omega
  · rintro rfl
    rfl

/-- The condition of a step. -/
theorem Ready.condition {n : ℕ} (hready : Ready pos ctx h F o xs n)
    (hprov : PureContext.Provides ctx PureContext.ofFold) (hn : n < 2 ^ 63)
    (hlength : xs.length < 2 ^ 31) :
    Yields h (.FUNCTION_CALL PureContext.eqDefinition.header [refCode pos "size", longCode n]) ctx
      (.Right (.CONST_BOOLEAN (decide (xs.length = n)))) := by
  have hfun := hprov PureContext.eqDefinition (by simp [PureContext.ofFold])
  have hcall := yields_NativeFunction hfun
    (.cons hready.size (.cons (yields_evaluated (.CONST_LONG (Int64.ofNat n))) .nil))
  have hsame : (EVALUATED.CONST_LONG (Int64.ofNat xs.length)).same
      (.CONST_LONG (Int64.ofNat n)) = decide (xs.length = n) := by
    rw [EVALUATED.same]
    exact decide_eq_decide.mpr (ofNat_eq_ofNat_iff (by omega) hn)
  rw [← hsame]
  exact hcall

theorem folded_take_succ {n : ℕ} {x : EVALUATED} (hx : xs[n]? = some x) :
    folded F o (xs.take (n + 1)) = (folded F o (xs.take n)).andThen fun acc => F acc x := by
  rw [List.take_add_one, hx, folded, List.foldl_append]
  rfl

/-- The next accumulator yields the fold of one element more. -/
theorem Ready.nextAcc {n : ℕ} (hready : Ready pos ctx' h' F o xs n)
    (hscope : SameScope pos ctx ctx') (hlater : Later h h')
    (hprov : PureContext.Provides ctx PureContext.ofFold) (hlength : xs.length < 2 ^ 31)
    (hn : n < xs.length) {header : FunctionHeader} (himpl : Implements pos ctx h F header) :
    Yields h' (nextAccCode pos header n) ctx' (folded F o (xs.take (n + 1))) := by
  have hx := List.getElem?_eq_getElem hn
  have hfun := hprov PureContext.getElementDefinition (by simp [PureContext.ofFold])
  rw [← hscope.functions] at hfun
  have helement := yields_NativeFunction hfun
    (.cons hready.list (.cons (yields_evaluated (.CONST_LONG (Int64.ofNat n))) .nil))
  have hindex : (Int64.ofNat n).toInt = n := Int64.toInt_ofNat_of_lt (by omega)
  have hread : PureContext.getElement xs (Int64.ofNat n) = .Right xs[n] := by
    apply PureContext.getElement_of_some
    · rw [hindex, toInt32_of_range (by omega) (by omega)]
      omega
    · rw [hindex, toInt32_of_range (by omega) (by omega)]
      simp
  rw [folded_take_succ hx]
  exact himpl ctx' h' _ _ _ _ hscope hlater hready.acc (hread ▸ helement)

/-- What a declaration of the macro adds: its name yields what its value does. -/
theorem yields_block {v : String} {value body : EXPR} {oValue oBody : Outcome EVALUATED}
    (hscope : SameScope pos ctx ctx') (hvalue : Yields h' value ctx' oValue)
    (hbody : ∀ ctx'' h'', SameScope pos ctx ctx'' → Later h' h'' →
      (∀ w, w ≠ v → ctx''.letDefs (name pos w) = ctx'.letDefs (name pos w)) →
      Yields h'' (refCode pos v) ctx'' oValue → Yields h'' body ctx'' oBody) :
    Yields h' (.LET_BLOCK (name pos v) value body) ctx' oBody := by
  refine yields_LET_BLOCK ?_
  intro h₁ hlater₁
  have hlater₂ := hlater₁.alloc (.delayed (name pos v) value ctx')
  refine hbody _ _ (hscope.withLet v h₁.cells.length) hlater₂ ?_ ?_
  · intro w hw
    exact EvaluationContext.withLet_letDefs_ne (fun hsame => hw (name_inj hsame)) _ _
  · exact yields_REF_of_stored (EvaluationContext.withLet_letDefs_self _ _ _)
      (Heap.alloc_getElem?_self h₁ _) (hvalue.later hlater₂)

/-- **The steps.** From the first on, by how many there still are. -/
theorem yields_steps {limit k n : ℕ} {headers : FunctionHeader → Prop} {steps : EXPR}
    (hcode : StepsCode pos limit headers k n steps)
    (hlength : xs.length < 2 ^ 31) (hprov : PureContext.Provides ctx PureContext.ofFold)
    (himpl : ∀ header, headers header → Implements pos ctx h F header) (hk : n + k = limit + 1)
    (hn : n ≤ xs.length) (hready : Ready pos ctx' h' F o xs n) (hscope : SameScope pos ctx ctx')
    (hlater : Later h h') : Yields h' steps ctx' (outcome F limit o xs) := by
  induction hcode generalizing ctx' h' with
  | @exceeded n s hs =>
    have hfun := hprov PureContext.throwWithMessage (by simp [PureContext.ofFold])
    rw [← hscope.functions] at hfun
    have hcall := yields_NativeFunction (h := h') hfun
      (.cons (yields_evaluated (.CONST_STRING s)) .nil)
    rw [outcome, if_neg (by omega), ← hs]
    exact hcall
  | @step k n header next hheader hnext ih =>
    have hprov' : PureContext.Provides ctx' PureContext.ofFold := by
      intro d hd
      rw [hscope.functions]
      exact hprov d hd
    refine yields_IF (hready.condition hprov' (by omega) hlength) ?_
    by_cases hlast : xs.length = n
    · -- the last accumulator
      have hacc := hready.acc
      rw [← hlast, List.take_length] at hacc
      rw [decide_eq_true hlast, if_pos rfl, outcome, if_pos (by omega), ← hlast]
      exact hacc
    · -- one accumulator more, and the step after it
      rw [decide_eq_false hlast, if_neg Bool.false_ne_true]
      have hnextAcc := hready.nextAcc hscope hlater hprov hlength (by omega)
        (himpl header hheader)
      refine yields_block hscope hnextAcc ?_
      intro ctx'' h'' hscope' hlater' hsame hacc
      refine ih (by omega) (by omega) ?_ hscope' (hlater.trans hlater')
      refine ⟨?_, ?_, hacc⟩
      · exact (hready.list.later hlater').REF_congr (hsame "list" (accName_ne _).1.symm)
      · exact (hready.size.later hlater').REF_congr (hsame "size" (accName_ne _).2.symm)

/-- The three declarations, and the steps. -/
theorem yields_foldCode {limit : ℕ} {headers : FunctionHeader → Prop} {listCode accCode steps : EXPR}
    (hcode : StepsCode pos limit headers (limit + 1) 0 steps)
    (hprov : PureContext.Provides ctx PureContext.ofFold) (hlength : xs.length < 2 ^ 31)
    (himpl : ∀ header, headers header → Implements pos ctx h F header)
    (hlist : Yields h listCode ctx (.Right (.ARR xs)))
    (hacc : ∀ ctx', SameScope pos ctx ctx' → Yields h accCode ctx' o) :
    Yields h (foldCode pos listCode accCode steps) ctx (outcome F limit o xs) := by
  refine yields_block .refl hlist ?_
  intro ctx₁ h₁ hscope₁ hlater₁ _ hlist₁
  have hfun := hprov PureContext.getListSize (by simp [PureContext.ofFold])
  rw [← hscope₁.functions] at hfun
  refine yields_block hscope₁ (yields_NativeFunction hfun (.cons hlist₁ .nil)) ?_
  intro ctx₂ h₂ hscope₂ hlater₂ hsame₂ hsize₂
  have hlist₂ := (hlist₁.later hlater₂).REF_congr (hsame₂ "list" (by decide))
  refine yields_block hscope₂ ((hacc ctx₂ hscope₂).later (hlater₁.trans hlater₂)) ?_
  intro ctx₃ h₃ hscope₃ hlater₃ hsame₃ hacc₃
  -- no declaration hides another
  refine yields_steps hcode hlength hprov himpl (by omega) (Nat.zero_le _) ?_ hscope₃
    ((hlater₁.trans hlater₂).trans hlater₃)
  refine ⟨?_, ?_, hacc₃⟩
  · exact (hlist₂.later hlater₃).REF_congr (hsame₃ "list" (accName_ne 0).1.symm)
  · exact (hsize₂.later hlater₃).REF_congr (hsame₃ "size" (accName_ne 0).2.symm)

section

local instance insertionOrder : FINAL.SetOrder := ⟨id, FINAL.mem_id⟩

/-- What a function that the context brings makes of values. -/
def applied : BaseFunction → List EVALUATED → Outcome EVALUATED
  | .NativeFunction _ ev, vs => ev vs
  | .UserFunction name _ _, vs => notImplemented name vs

/-- `func sum(a: Int, b: Int) = a + b`. -/
def sum : BaseFunction :=
  .UserFunction "sum" ["a", "b"] (.FUNCTION_CALL PureContext.sumLong.header [.REF "a", .REF "b"])

/-- A variable `xs: List[Int]`, and `sum`. -/
def sumCompiler : CompilerContext where
  predefTypes := []
  varDefs := fun key => if key = "xs" then some (.list (.real .LONG)) else none
  functionDefs := fun key =>
    if key = "==" then some [PureContext.eqSignature]
    else if key = "throw" then some PureContext.throwSignatures
    else if key = "getElement" then some [PureContext.getElementSignature]
    else if key = "size" then some PureContext.sizeSignatures
    else if key = "sum" then
      some [⟨.final (.real .LONG), [("a", .final (.real .LONG)), ("b", .final (.real .LONG))],
        .User "sum"⟩]
    else none
  tmpArgsIdx := 0

def sumScope : EvaluationContext where
  typeDefs := fun _ => none
  letDefs := fun key => if key = "xs" then some 0 else none
  functions := fun header =>
    ((⟨.User "sum", sum⟩ :: PureContext.sumLong :: PureContext.ofFold).find?
      fun d => decide (d.header = header)).map PureContext.Definition.function

def numbers : List EVALUATED := [.CONST_LONG 1, .CONST_LONG 2]

def sumHeap : Heap := ⟨[.memoized (.ok (.ARR numbers))], []⟩

theorem implements_sum {pos : Pos} {h : Heap} :
    Implements pos sumScope h (fun acc x => applied PureContext.sumLong.function [acc, x])
      (.User "sum") := by
  have hfun : sumScope.functions (.User "sum") = some (.UserFunction "sum" ["a", "b"]
      (.FUNCTION_CALL PureContext.sumLong.header [.REF "a", .REF "b"])) := rfl
  refine implements_UserFunction hfun ?_
  intro ctx' h' acc x hscope _
  have hnative : sumScope.functions PureContext.sumLong.header =
      some (.NativeFunction "+" (applied PureContext.sumLong.function)) := rfl
  rw [← hscope.functions] at hnative
  have hne : ("a" : String) ≠ "b" := by decide
  have hlet : (parameters ctx' h' "a" "b" acc x).1.letDefs "a" = some h'.cells.length := by
    rw [parameters, EvaluationContext.withLet_letDefs_ne hne,
      EvaluationContext.withLet_letDefs_self]
  refine yields_NativeFunction hnative (.cons ?_ (.cons ?_ .nil))
  · exact yields_REF_of_stored hlet
      (Heap.alloc_getElem?_of_some (Heap.alloc_getElem?_self h' _)) (yields_evaluated acc)
  · exact yields_REF_of_stored (EvaluationContext.withLet_letDefs_self _ _ _)
      (Heap.alloc_getElem?_self _ _) (yields_evaluated x)

/-- `FOLD<2>(xs, 9, sum)` of the numbers one and two. -/
def foldSum : Expressions.EXPR :=
  unwrapFold origin 2 (.REF origin (.VALID origin "xs")) (.CONST_LONG origin 9)
    (.VALID origin "sum")

end

end Macro

end Evaluated

end Lang

end WavesNode
