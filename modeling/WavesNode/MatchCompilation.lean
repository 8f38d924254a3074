/-
What a match compiles to, and what that evaluates to.

A case takes a value when it lists no types, or when one of those it lists is the type of the
value; a union is listed as its members. At run time the test is by the name of a type. The
two agree on a value whose type shares its name with no other type that is listed and is not
a list: an element of a list has no name that could be asked for.

The value of a match is stored, not computed. The first test computes it, and it stays. A first
case that takes every value runs no test, so there the value is computed when it is used, or
not at all.
-/
import WavesNode.ExpressionCompiler
import WavesNode.PureContext
import WavesNode.StoredValues
import WavesNode.TypedValues

set_option autoImplicit false

namespace WavesNode

namespace Lang

open Expressions (Pos PART MATCH_CASE)
open CompileM EvaluatorV1 ExpressionCompiler

/-! ## 1. What a case lists -/

/-- What the name of a type stands for: the members of a union, or the type. -/
def FINAL.alternatives : FINAL → List FINAL
  | .NOTHING => [.NOTHING]
  | .real r => [.real r]
  | .UNION ts _ => ts.map .real

/-- What names of types stand for. -/
def namedTypes (predefTypes : List (String × FINAL)) (names : List String) : List FINAL :=
  names.flatMap fun name => ((predefTypes.lookup name).map FINAL.alternatives).getD []

/-- The types that a case lists. -/
def listed (predefTypes : List (String × FINAL)) (mc : MATCH_CASE) : List FINAL :=
  namedTypes predefTypes (mc.types.filterMap PART.toOption)

/-- The case takes the values of the type. -/
def Accepts (predefTypes : List (String × FINAL)) (r : REAL) (mc : MATCH_CASE) : Prop :=
  mc.types = [] ∨ .real r ∈ listed predefTypes mc

/-- No other type that is listed has the name of this one, and it is listed as no list. -/
def SoleName (predefTypes : List (String × FINAL)) (cases : List MATCH_CASE) (r : REAL) : Prop :=
  ∀ mc ∈ cases, ∀ t ∈ listed predefTypes mc, t.name = r.name → t = .real r ∧ ∀ s, r ≠ .LIST s

theorem FINAL.mem_alternatives {t : FINAL} {r : REAL} :
    .real r ∈ t.alternatives ↔ r ∈ t.typeList := by
  cases t with
  | NOTHING => simp [FINAL.alternatives]
  | real s => simp [FINAL.alternatives]
  | UNION ts n => simp [FINAL.alternatives]

/-- An alternative is one type, or nothing. -/
theorem FINAL.eq_of_mem_alternatives {t u : FINAL} {r : REAL} (hu : u ∈ t.alternatives)
    (hr : r ∈ u.typeList) : u = .real r := by
  cases t with
  | NOTHING =>
    rw [FINAL.alternatives, List.mem_singleton] at hu
    rw [hu] at hr
    simp at hr
  | real s =>
    rw [FINAL.alternatives, List.mem_singleton] at hu
    rw [hu, FINAL.typeList_real, List.mem_singleton] at hr
    rw [hu, hr]
  | UNION ts n =>
    rw [FINAL.alternatives, List.mem_map] at hu
    obtain ⟨s, -, rfl⟩ := hu
    rw [FINAL.typeList_real, List.mem_singleton] at hr
    rw [hr]

theorem mem_typeList_namedTypes {predefTypes : List (String × FINAL)} {names : List String}
    {u : FINAL} {r : REAL} (hu : u ∈ namedTypes predefTypes names) (hr : r ∈ u.typeList) :
    u = .real r := by
  rw [namedTypes, List.mem_flatMap] at hu
  obtain ⟨name, -, hu⟩ := hu
  cases hlookup : predefTypes.lookup name with
  | none => simp [hlookup] at hu
  | some t =>
    rw [hlookup] at hu
    exact FINAL.eq_of_mem_alternatives hu hr

/-! ## 2. Names that are read and looked up -/

private theorem except_mapM_eq_map {ε α β : Type} {f : α → Except ε β} {g : α → β}
    (hf : ∀ a b, f a = .ok b → b = g a) {as : List α} {bs : List β}
    (h : as.mapM f = .ok bs) : bs = as.map g := by
  induction as generalizing bs with
  | nil =>
    rw [List.mapM_nil] at h
    exact (Except.ok.inj h).symm
  | cons a as ih =>
    rw [List.mapM_cons] at h
    cases hb : f a with
    | error e =>
      rw [hb] at h
      cases h
    | ok b =>
      cases hbs : as.mapM f with
      | error e =>
        rw [hb, hbs] at h
        cases h
      | ok bs' =>
        rw [hb, hbs] at h
        rw [List.map_cons, ← hf a b hb, ← ih hbs]
        exact (Except.ok.inj h).symm

theorem flat_eq_ok {p : Pos} {typeDefs : List (String × FINAL)} {names expected : List String}
    {varName : Option String} {l : List FINAL}
    (h : flat p typeDefs names expected varName = .ok l) : l = namedTypes typeDefs names := by
  unfold flat at h
  cases hmap : names.mapM (flatSingle p typeDefs names expected varName) with
  | error e =>
    rw [hmap] at h
    cases h
  | ok ls =>
    rw [hmap] at h
    have hls := except_mapM_eq_map
      (g := fun name => ((typeDefs.lookup name).map FINAL.alternatives).getD []) ?_ hmap
    · rw [← Except.ok.inj h, hls, namedTypes, List.flatMap_def]
    · intro name ts hts
      unfold flatSingle at hts
      cases hlookup : typeDefs.lookup name with
      | none =>
        rw [hlookup] at hts
        cases hts
      | some t =>
        rw [hlookup] at hts
        cases t <;> exact (Except.ok.inj hts).symm

private theorem mapM_valid_eq_ok {parts : List (PART String)} {names : List String}
    (h : parts.mapM valid = .ok names) : names = parts.filterMap PART.toOption := by
  induction parts generalizing names with
  | nil =>
    rw [List.mapM_nil] at h
    exact (Except.ok.inj h).symm
  | cons part parts ih =>
    rw [List.mapM_cons] at h
    cases part with
    | INVALID q m => cases h
    | VALID q v =>
      cases hrest : parts.mapM valid with
      | error e =>
        rw [hrest] at h
        cases h
      | ok rest =>
        rw [hrest] at h
        rw [← Except.ok.inj h, ih hrest]
        rfl

/-- The check of a match, by the types that its cases list. -/
theorem exists_accepts_of_exhaustive {cases : List MATCH_CASE} {p : Pos}
    {predefTypes : List (String × FINAL)} {members : List REAL} {unionName : Option String}
    {matched : List FINAL} {r : REAL}
    (hflat : flat p predefTypes ((cases.flatMap MATCH_CASE.types).filterMap PART.toOption) []
      none = .ok matched)
    (hexhaustive : exhaustive cases (.UNION members unionName) (.create matched none) = true)
    (hr : r ∈ members) : ∃ mc ∈ cases, Accepts predefTypes r mc := by
  rw [exhaustive, Bool.or_eq_true, Bool.and_eq_true] at hexhaustive
  rcases hexhaustive with ⟨hlast, -⟩ | hsame
  · -- the last case takes every value
    cases hget : cases.getLast? with
    | none => simp [hget] at hlast
    | some mc =>
      rw [hget] at hlast
      exact ⟨mc, List.mem_of_getLast? hget, .inl (List.isEmpty_iff.mp hlast)⟩
  · -- the cases list the types of the value
    have hmatched := (FINAL.equivalent_iff.mp hsame r).mp hr
    obtain ⟨u, hu, hru⟩ := FINAL.mem_create.mp hmatched
    rw [flat_eq_ok hflat] at hu
    rw [mem_typeList_namedTypes hu hru, namedTypes, List.filterMap_flatMap, List.flatMap_assoc,
      List.mem_flatMap] at hu
    obtain ⟨mc, hmc, hu⟩ := hu
    exact ⟨mc, hmc, .inr hu⟩

/-! ## 3. The code of a match -/

section
variable [FINAL.SetOrder] {c : CompilerContext}

/-- The compiler accepts the expression, with this code and this type. -/
def Compiles (c : CompilerContext) (e : Expressions.EXPR) (code : EXPR) (t : FINAL) : Prop :=
  ∃ n c₁ c', Returns (compileExprWithCtx n e) c (c₁, code, t) c'

theorem compiles_of_compileExpr {n : ℕ} {e : Expressions.EXPR} {c' : CompilerContext}
    {r : EXPR × FINAL} (h : Returns (compileExpr (compileExprWithCtx n) e) c r c') :
    Compiles c e r.1 r.2 := by
  obtain ⟨⟨c₁, code, t⟩, c₂, he, hr⟩ := returns_bind.mp h
  rw [← (returns_pure.mp hr).1]
  exact ⟨n, c₁, c₂, he⟩

theorem compiles_REF {p q : Pos} {key : String} {code : EXPR} {t : FINAL}
    (h : Compiles c (.REF p (.VALID q key)) code t) :
    code = .REF key ∧ c.varDefs key = some t := by
  obtain ⟨n, c₁, c', hn⟩ := h
  cases n with
  | zero => exact absurd hn returns_outOfFuel
  | succ n =>
    have href : Returns (compileRef p (.VALID q key)) c (c₁, code, t) c' := hn
    rw [compileRef, returns_valid_bind, returns_get_bind] at href
    cases hvar : c.varDefs key with
    | none =>
      rw [hvar] at href
      exact absurd href returns_raiseError
    | some u =>
      rw [hvar] at href
      have hresult := (returns_pure.mp href).1
      simp only [Prod.mk.injEq] at hresult
      exact ⟨hresult.2.1.symm, congrArg some hresult.2.2⟩

theorem compiles_CONST_STRING {p q : Pos} {text : String} {code : EXPR} {t : FINAL}
    (h : Compiles c (.CONST_STRING p (.VALID q text)) code t) :
    ∃ s : ConstString, s.s = text ∧ code = .evaluated (.CONST_STRING s) := by
  obtain ⟨n, c₁, c', hn⟩ := h
  cases n with
  | zero => exact absurd hn returns_outOfFuel
  | succ n =>
    have hconst : Returns (handlePart (.VALID q text) >>= fun s =>
      constant p (EVALUATED.constString s) .STRING) c (c₁, code, t) c' := hn
    rw [returns_valid_bind, constant, returns_get_bind] at hconst
    by_cases hsize : (utf8Bytes text).length ≤ DATA_TX_BYTES_MAX
    · have hmade : EVALUATED.constString text = .ok (.CONST_STRING ⟨text, hsize⟩) := dif_pos hsize
      rw [hmade] at hconst
      have hresult := (returns_pure.mp hconst).1
      simp only [Prod.mk.injEq] at hresult
      exact ⟨⟨text, hsize⟩, rfl, hresult.2.1.symm⟩
    · rw [EVALUATED.constString, dif_neg hsize] at hconst
      exact absurd hconst returns_raiseError

theorem compiles_TRUE {p : Pos} {code : EXPR} {t : FINAL} (h : Compiles c (.TRUE p) code t) :
    code = .evaluated (.CONST_BOOLEAN true) := by
  obtain ⟨n, c₁, c', hn⟩ := h
  cases n with
  | zero => exact absurd hn returns_outOfFuel
  | succ n =>
    have hpure := returns_get_bind.mp hn
    have hresult := (returns_pure.mp hpure).1
    simp only [Prod.mk.injEq] at hresult
    exact hresult.2.1.symm

/-- The three parts of a conditional are compiled in the same context. -/
theorem compiles_of_compileIf {n : ℕ} {p : Pos} {a b d : Expressions.EXPR} {c' : CompilerContext}
    {r : EXPR × FINAL} (h : Returns (compileIf (compileExprWithCtx n) p a b d) c r c') :
    ∃ ca ta cb tb cd td, r.1 = .IF ca cb cd ∧ Compiles c a ca ta ∧ Compiles c b cb tb ∧
      Compiles c d cd td := by
  unfold compileIf at h
  obtain ⟨⟨ca, ta⟩, c₁, ha, hrest⟩ := returns_bind.mp h
  obtain ⟨⟨cb, tb⟩, c₂, hb, hrest'⟩ := returns_bind.mp hrest
  obtain ⟨⟨cd, td⟩, c₃, hd, hpure⟩ := returns_bind.mp hrest'
  obtain ⟨rfl, c₄, ha'⟩ := returns_local.mp ha
  obtain ⟨rfl, c₅, hb'⟩ := returns_local.mp hb
  obtain ⟨rfl, c₆, hd'⟩ := returns_local.mp hd
  unfold compileCond at ha'
  obtain ⟨⟨ca', ta'⟩, c₇, hcond, hensure⟩ := returns_bind.mp ha'
  obtain ⟨_, c₈, -, hcond'⟩ := returns_bind.mp hensure
  obtain ⟨hsame, -⟩ := returns_pure.mp hcond'
  simp only [Prod.mk.injEq] at hsame
  obtain ⟨rfl, rfl⟩ := hsame
  refine ⟨ca', ta', cb, tb, cd, td, ?_, compiles_of_compileExpr hcond,
    compiles_of_compileExpr hb', compiles_of_compileExpr hd'⟩
  rw [← (returns_pure.mp hpure).1]
  rfl

theorem compiles_IF {p : Pos} {a b d : Expressions.EXPR} {code : EXPR} {t : FINAL}
    (h : Compiles c (.IF p a b d) code t) :
    ∃ ca ta cb tb cd td, code = .IF ca cb cd ∧ Compiles c a ca ta ∧ Compiles c b cb tb ∧
      Compiles c d cd td := by
  obtain ⟨n, c₁, c', hn⟩ := h
  cases n with
  | zero => exact absurd hn returns_outOfFuel
  | succ n =>
    obtain ⟨r, _, hif, hpure⟩ := returns_bind.mp (returns_get_bind.mp hn)
    obtain ⟨ca, ta, cb, tb, cd, td, hr, hparts⟩ := compiles_of_compileIf hif
    have hresult := (returns_pure.mp hpure).1
    simp only [Prod.mk.injEq] at hresult
    obtain ⟨-, rfl⟩ := hresult
    exact ⟨ca, ta, cb, tb, cd, td, hr, hparts⟩

/-- One or the other is a conditional. -/
theorem compiles_OR_OP {p : Pos} {a b : Expressions.EXPR} {code : EXPR} {t : FINAL}
    (h : Compiles c (.BINARY_OP p a .OR_OP b) code t) :
    ∃ ca ta cb tb, code = .IF ca (.evaluated (.CONST_BOOLEAN true)) cb ∧ Compiles c a ca ta ∧
      Compiles c b cb tb := by
  obtain ⟨n, c₁, c', hn⟩ := h
  cases n with
  | zero => exact absurd hn returns_outOfFuel
  | succ n =>
    obtain ⟨r, _, hif, hpure⟩ := returns_bind.mp (returns_get_bind.mp hn)
    obtain ⟨ca, ta, ct, tt, cb, tb, hr, ha, htrue, hb⟩ := compiles_of_compileIf hif
    have hresult := (returns_pure.mp hpure).1
    simp only [Prod.mk.injEq] at hresult
    obtain ⟨-, rfl⟩ := hresult
    rw [compiles_TRUE htrue] at hr
    exact ⟨ca, ta, cb, tb, hr, ha, hb⟩

/-- A declaration: its value is compiled in the context, and the body with its name added. -/
theorem compiles_BLOCK_LET {p q : Pos} {name : PART String} {value body : Expressions.EXPR}
    {types : List (PART String)} {allowShadowing : Bool} {code : EXPR} {t : FINAL}
    (h : Compiles c (.BLOCK p (.LET q name value types allowShadowing) body) code t) :
    ∃ x valueCode t₀ bodyCode, (∃ q, name = .VALID q x) ∧ Compiles c value valueCode t₀ ∧
      Compiles (c.withVar x (handleTypeUnion (types.filterMap PART.toOption) t₀ c)) body
        bodyCode t ∧
      code = .LET_BLOCK x valueCode bodyCode := by
  obtain ⟨n, c₁, c', hn⟩ := h
  cases n with
  | zero => exact absurd hn returns_outOfFuel
  | succ n =>
    have hrec := keeps_compileExprWithCtx n
    obtain ⟨x, letType, e, bodyCode, c₂, hlet, hbody, hcode⟩ := returns_compileLetBlock hrec hn
    obtain ⟨hname, -, t₀, hvalue, rfl⟩ := returns_compileLet hrec hlet
    exact ⟨x, e, t₀, bodyCode, hname, compiles_of_compileExpr hvalue, ⟨n, c₁, c₂, hbody⟩, hcode⟩

/-- A call has the header of the signature that it is matched with. -/
theorem matchFuncOverload_eq_ok {p : Pos} {name : String} {k : ℕ} {args : List (EXPR × FINAL)}
    {f : FunctionTypeSignature} {r : EXPR × FINAL}
    (h : matchFuncOverload p name k args f = .ok r) :
    r.1 = .FUNCTION_CALL f.header ((args.zip f.args).map fun x => x.1.1) := by
  unfold matchFuncOverload at h
  by_cases hlength : k ≠ f.args.length
  · rw [if_pos hlength] at h
    cases h
  · rw [if_neg hlength] at h
    dsimp only at h
    split at h
    · cases h
    · cases h
    · split at h
      · rw [← Except.ok.inj h]
      · cases h

/-- The test of one type. -/
def isInstCode (key : String) (s : ConstString) : EXPR :=
  .FUNCTION_CALL PureContext._isInstanceOf.header [.REF key, .evaluated (.CONST_STRING s)]

/-- The signature of `_isInstanceOf`. -/
def isInstanceOfSignature : FunctionTypeSignature where
  result := .final (.real .BOOLEAN)
  args := [("obj", .TYPEPARAM 84), ("of", .final (.real .STRING))]
  header := PureContext._isInstanceOf.header

theorem compiles_isInst {p q r : Pos} {key matchType : String} {code : EXPR} {t : FINAL}
    (hsig : c.functionDefs "_isInstanceOf" = some [isInstanceOfSignature])
    (h : Compiles c (isInst p (.REF q (.VALID r key)) matchType) code t) :
    ∃ s : ConstString, s.s = matchType ∧ code = isInstCode key s := by
  obtain ⟨n, c₁, c', hn⟩ := h
  cases n with
  | zero => exact absurd hn returns_outOfFuel
  | succ n =>
    have hcall : Returns (compileFunctionCall (compileExprWithCtx n) p
      (.VALID p "_isInstanceOf") [.REF q (.VALID r key), .CONST_STRING p (.VALID p matchType)]) c
      (c₁, code, t) c' := hn
    rw [compileFunctionCall, returns_get_bind, returns_valid_bind] at hcall
    obtain ⟨compiledArgs, _, hmap, hresult⟩ := returns_bind.mp hcall
    obtain ⟨⟨refCode, refType⟩, _, rest, hobj, hmap', rfl⟩ := returns_mapM_cons.mp hmap
    obtain ⟨⟨stringCode, stringType⟩, _, rest', hof, hmap'', rfl⟩ := returns_mapM_cons.mp hmap'
    have hkept := keeps_compileExpr (keeps_compileExprWithCtx n) _ _ _ _ hobj
    rw [hkept] at hof
    obtain ⟨rfl, -⟩ := compiles_REF (compiles_of_compileExpr hobj)
    obtain ⟨s, hs, hcode⟩ := compiles_CONST_STRING (compiles_of_compileExpr hof)
    obtain rfl : rest' = [] := (returns_pure.mp hmap'').1.symm
    obtain ⟨call, _, hlift, hpure⟩ := returns_bind.mp hresult
    have hcallCode := (returns_pure.mp hpure).1
    simp only [Prod.mk.injEq] at hcallCode
    obtain ⟨-, rfl⟩ := hcallCode
    refine ⟨s, hs, ?_⟩
    have hsigs : c.functionTypeSignaturesByName "_isInstanceOf" = [isInstanceOfSignature] := by
      rw [CompilerContext.functionTypeSignaturesByName, hsig]
      rfl
    have hresolve := (returns_lift.mp hlift).1
    rw [hsigs] at hresolve
    have hcallCode : code = .FUNCTION_CALL isInstanceOfSignature.header [.REF key, stringCode] :=
      matchFuncOverload_eq_ok hresolve
    rw [hcallCode, show stringCode = .evaluated (.CONST_STRING s) from hcode]
    rfl

/-- The test of several types, the last that is listed first. -/
inductive TypeTest (key : String) : List String → EXPR → Prop where
  | one (s : ConstString) : TypeTest key [s.s] (isInstCode key s)
  | more {names : List String} {other : EXPR} (hother : TypeTest key names other)
      (s : ConstString) : TypeTest key (names ++ [s.s])
        (.IF (isInstCode key s) (.evaluated (.CONST_BOOLEAN true)) other)

theorem compiles_typeIf {p q r : Pos} {key hType : String} {tTypes : List String} {code : EXPR}
    {t : FINAL} (hsig : c.functionDefs "_isInstanceOf" = some [isInstanceOfSignature])
    (h : Compiles c (typeIf p (.REF q (.VALID r key)) hType tTypes) code t) :
    TypeTest key (hType :: tTypes) code := by
  induction tTypes using List.reverseRecOn generalizing code t with
  | nil =>
    obtain ⟨s, rfl, rfl⟩ := compiles_isInst hsig h
    exact .one s
  | append_singleton tTypes matchType ih =>
    rw [typeIf, List.foldl_append, List.foldl_cons, List.foldl_nil] at h
    obtain ⟨ca, ta, cb, tb, rfl, ha, hb⟩ := compiles_OR_OP h
    obtain ⟨s, rfl, rfl⟩ := compiles_isInst hsig ha
    exact .more (ih hb) s

/-- The code of the cases: a test before each case that lists types, and nothing after a case
that lists none. -/
inductive CasesCode (c : CompilerContext) (key : String)
    (block : MATCH_CASE → Expressions.EXPR) : List MATCH_CASE → EXPR → Prop where
  | default (code : EXPR) : CasesCode c key block [] code
  | every {mc : MATCH_CASE} {rest : List MATCH_CASE} {branch : EXPR} {t : FINAL}
      (htypes : mc.types = []) (hbranch : Compiles c (block mc) branch t) :
      CasesCode c key block (mc :: rest) branch
  | typed {mc : MATCH_CASE} {rest : List MATCH_CASE} {cond branch further : EXPR} {t : FINAL}
      (htypes : mc.types ≠ [])
      (hcond : TypeTest key ((listed c.predefTypes mc).map FINAL.name) cond)
      (hbranch : Compiles c (block mc) branch t) (hfurther : CasesCode c key block rest further) :
      CasesCode c key block (mc :: rest) (.IF cond branch further)

theorem casesCode_of_ifCases {c₁ : CompilerContext} {q r : Pos} {key : String}
    {allowShadowVarName : Option String} {exprTypes : List REAL} {default : Expressions.EXPR}
    {cases : List MATCH_CASE} {e : Expressions.EXPR} {code : EXPR} {t : FINAL}
    (htypes : c₁.predefTypes = c.predefTypes)
    (hsig : c.functionDefs "_isInstanceOf" = some [isInstanceOfSignature])
    (he : ifCases c₁ (.REF q (.VALID r key)) allowShadowVarName exprTypes default cases = .ok e)
    (h : Compiles c e code t) :
    CasesCode c key (blockWithNewVar (.REF q (.VALID r key)) allowShadowVarName) cases code := by
  induction cases generalizing e code t with
  | nil => exact .default code
  | cons mc rest ih =>
    rw [ifCases] at he
    cases hfurther : ifCases c₁ (.REF q (.VALID r key)) allowShadowVarName exprTypes default
      rest with
    | error x =>
      rw [hfurther] at he
      cases he
    | ok further =>
      rw [hfurther] at he
      replace he : ifCase c₁ (.REF q (.VALID r key)) allowShadowVarName exprTypes mc further =
        .ok e := he
      rw [ifCase] at he
      by_cases hempty : mc.types.isEmpty = true
      · rw [if_pos hempty] at he
        rw [← Except.ok.inj he] at h
        exact .every (List.isEmpty_iff.mp hempty) h
      · rw [if_neg hempty] at he
        cases hvalid : mc.types.mapM valid with
        | error x =>
          rw [hvalid] at he
          cases he
        | ok names =>
          rw [hvalid] at he
          cases hflat : flat mc.position c₁.predefTypes names (exprTypes.map REAL.name)
            allowShadowVarName with
          | error x =>
            simp only [bind, Except.bind, hflat] at he
            cases he
          | ok types =>
            simp only [bind, Except.bind, hflat] at he
            have hlisted : types = listed c.predefTypes mc := by
              rw [flat_eq_ok hflat, mapM_valid_eq_ok hvalid, htypes]
              rfl
            cases hnames : types.map FINAL.name with
            | nil =>
              rw [hnames] at he
              cases he
            | cons hType tTypes =>
              rw [hnames] at he
              rw [← Except.ok.inj he] at h
              obtain ⟨ca, ta, cb, tb, cd, td, rfl, ha, hb, hd⟩ := compiles_IF h
              have htest := compiles_typeIf hsig ha
              rw [← hnames, hlisted] at htest
              exact .typed (fun hnil => hempty (List.isEmpty_iff.mpr hnil)) htest hb
                (ih hfurther hd)

/-! ## 4. What the body of a case is compiled and evaluated in -/

/-- The context that the body of a case is compiled in. -/
def bodyContext (c : CompilerContext) (matched : FINAL) (mc : MATCH_CASE) : CompilerContext :=
  match mc.newVarName with
  | some (.VALID _ x) =>
    c.withVar x (handleTypeUnion (mc.types.filterMap PART.toOption) matched c)
  | _ => c

/-- The scope that the body of a case is evaluated in. -/
def bodyScope (key : String) (mc : MATCH_CASE) (ctx : EvaluationContext) (h : Heap) :
    EvaluationContext × Heap :=
  match mc.newVarName with
  | some (.VALID _ x) => (ctx.withLet x h.cells.length, h.alloc (.delayed x (.REF key) ctx))
  | _ => (ctx, h)

/-- The code of a case is that of its body, with the variable declared. -/
theorem compiles_blockWithNewVar {mc : MATCH_CASE} {q r : Pos} {key : String}
    {allowShadowVarName : Option String} {branch : EXPR} {t matched : FINAL}
    (hkey : c.varDefs key = some matched)
    (h : Compiles c (blockWithNewVar (.REF q (.VALID r key)) allowShadowVarName mc) branch t) :
    ∃ body, Compiles (bodyContext c matched mc) mc.expr body t ∧ ∀ ctx h o h',
      Evaluates branch ctx h o h' ↔
        Evaluates body (bodyScope key mc ctx h).1 (bodyScope key mc ctx h).2 o h' := by
  unfold blockWithNewVar at h
  unfold bodyContext bodyScope
  cases hname : mc.newVarName with
  | none =>
    rw [hname] at h
    exact ⟨branch, h, fun _ _ _ _ => Iff.rfl⟩
  | some nv =>
    rw [hname] at h
    obtain ⟨x, valueCode, t₀, bodyCode, ⟨_, rfl⟩, hvalue, hbody, rfl⟩ := compiles_BLOCK_LET h
    obtain ⟨rfl, hkey'⟩ := compiles_REF hvalue
    rw [hkey] at hkey'
    rw [← Option.some.inj hkey'] at hbody
    exact ⟨bodyCode, hbody, fun _ _ _ _ => evaluates_LET_BLOCK_iff⟩

end

/-! ## 5. The tests -/

theorem instanceOf_iff {r : REAL} {v : EVALUATED} (hv : r.holds v = true)
    (hlist : ∀ s, r ≠ .LIST s) (name : String) :
    PureContext.instanceOf v name = true ↔ name = r.name := by
  cases r with
  | LIST s => exact absurd rfl (hlist s)
  | LONG => cases v <;> simp [REAL.holds, PureContext.instanceOf, REAL.name] at hv ⊢
  | BYTESTR => cases v <;> simp [REAL.holds, PureContext.instanceOf, REAL.name] at hv ⊢
  | BOOLEAN => cases v <;> simp [REAL.holds, PureContext.instanceOf, REAL.name] at hv ⊢
  | STRING => cases v <;> simp [REAL.holds, PureContext.instanceOf, REAL.name] at hv ⊢
  | CASETYPEREF caseName fields =>
    cases v with
    | CaseObj caseType values =>
      rw [REAL.holds, Bool.and_eq_true, Bool.and_eq_true, beq_iff_eq] at hv
      rw [PureContext.instanceOf, beq_iff_eq, REAL.name, hv.1.1, eq_comm]
    | CONST_LONG _ => simp [REAL.holds] at hv
    | CONST_BYTESTR _ => simp [REAL.holds] at hv
    | CONST_STRING _ => simp [REAL.holds] at hv
    | CONST_BOOLEAN _ => simp [REAL.holds] at hv
    | ARR _ => simp [REAL.holds] at hv

/-- A list is of no type that could be asked for. -/
theorem instanceOf_of_holds_LIST {s : FINAL} {v : EVALUATED} (hv : (REAL.LIST s).holds v = true)
    (name : String) : PureContext.instanceOf v name = false := by
  cases v <;> simp [REAL.holds, PureContext.instanceOf] at hv ⊢

/-- The tests by name find the type that is listed. -/
theorem any_instanceOf_iff {predefTypes : List (String × FINAL)} {cases : List MATCH_CASE}
    {r : REAL} {v : EVALUATED} {mc : MATCH_CASE} (hsole : SoleName predefTypes cases r)
    (hmc : mc ∈ cases) (hv : r.holds v = true) :
    ((listed predefTypes mc).map FINAL.name).any (PureContext.instanceOf v) = true ↔
      .real r ∈ listed predefTypes mc := by
  rw [List.any_map, List.any_eq_true]
  constructor
  · rintro ⟨t, ht, hinst⟩
    by_cases hlist : ∃ s, r = .LIST s
    · obtain ⟨s, rfl⟩ := hlist
      rw [Function.comp_apply, instanceOf_of_holds_LIST hv] at hinst
      cases hinst
    · have hname := (instanceOf_iff hv (fun s hs => hlist ⟨s, hs⟩) _).mp hinst
      rw [← (hsole mc hmc t ht hname).1]
      exact ht
  · intro hr
    have hlist := (hsole mc hmc (.real r) hr rfl).2
    exact ⟨.real r, hr, (instanceOf_iff hv hlist _).mpr rfl⟩

section
variable {ctx : EvaluationContext} {key : String} {v : EVALUATED}
  (hnative : ctx.functions PureContext._isInstanceOf.header =
    some PureContext._isInstanceOf.function)

include hnative

theorem evaluates_isInstCode {h h₁ : Heap} (hread : Evaluates (.REF key) ctx h (.Right v) h₁)
    (s : ConstString) : Evaluates (isInstCode key s) ctx h
      (.Right (.CONST_BOOLEAN (PureContext.instanceOf v s.s))) h₁ :=
  evaluates_NativeFunction hnative
    (.cons hread (.cons (evaluates_evaluated (.CONST_STRING s)) (.nil h₁)))

/-- The first test reads the value, and the others find it read. -/
theorem evaluates_typeTest {h h₁ : Heap} (hread : Evaluates (.REF key) ctx h (.Right v) h₁)
    (hkept : Evaluates (.REF key) ctx h₁ (.Right v) h₁) {names : List String} {code : EXPR}
    (htest : TypeTest key names code) :
    Evaluates code ctx h (.Right (.CONST_BOOLEAN (names.any (PureContext.instanceOf v)))) h₁ := by
  induction htest generalizing h with
  | one s =>
    rw [List.any_cons, List.any_nil, Bool.or_false]
    exact evaluates_isInstCode hnative hread s
  | @more names other hother s ih =>
    rw [List.any_append, List.any_cons, List.any_nil, Bool.or_false, Bool.or_comm]
    refine evaluates_IF (evaluates_isInstCode hnative hread s) ?_
    cases PureContext.instanceOf v s.s with
    | true => exact evaluates_evaluated _
    | false =>
      rw [Bool.false_or]
      exact ih hkept

end

/-! ## 6. The case that is run -/

section
variable [FINAL.SetOrder]

/-- The code of the cases is that of the first that takes the type, once it is tested. -/
theorem exists_case_of_casesCode {c : CompilerContext} {key : String}
    {block : MATCH_CASE → Expressions.EXPR} {cases : List MATCH_CASE} {code : EXPR} {r : REAL}
    (hcode : CasesCode c key block cases code) (hsole : SoleName c.predefTypes cases r)
    (haccepts : ∃ mc ∈ cases, Accepts c.predefTypes r mc) :
    ∃ before mc after branch t, cases = before ++ mc :: after ∧
      (∀ b ∈ before, ¬ Accepts c.predefTypes r b) ∧ Accepts c.predefTypes r mc ∧
      Compiles c (block mc) branch t ∧
      (before = [] ∧ mc.types = [] → code = branch) ∧
      (¬ (before = [] ∧ mc.types = []) → ∀ {ctx : EvaluationContext} {h h₁ : Heap} {v : EVALUATED},
        ctx.functions PureContext._isInstanceOf.header = some PureContext._isInstanceOf.function →
        r.holds v = true → Evaluates (.REF key) ctx h (.Right v) h₁ →
        Evaluates (.REF key) ctx h₁ (.Right v) h₁ →
        ∀ o h', Evaluates code ctx h o h' ↔ Evaluates branch ctx h₁ o h') := by
  induction hcode with
  | default code =>
    obtain ⟨mc, hmc, -⟩ := haccepts
    cases hmc
  | @every mc rest branch t htypes hbranch =>
    refine ⟨[], mc, rest, branch, t, rfl, ?_, .inl htypes, hbranch, fun _ => rfl, ?_⟩
    · intro b hb
      cases hb
    · intro htested
      exact absurd ⟨rfl, htypes⟩ htested
  | @typed mc rest cond branch further t htypes hcond hbranch hfurther ih =>
    by_cases hmc : .real r ∈ listed c.predefTypes mc
    · refine ⟨[], mc, rest, branch, t, rfl, ?_, .inr hmc, hbranch, ?_, ?_⟩
      · intro b hb
        cases hb
      · intro huntested
        exact absurd huntested.2 htypes
      · intro _ ctx h h₁ v hnative hv hread hkept o h'
        have htest := evaluates_typeTest hnative hread hkept hcond
        rw [(any_instanceOf_iff hsole List.mem_cons_self hv).mpr hmc] at htest
        exact evaluates_IF_iff htest
    · have hnot : ¬ Accepts c.predefTypes r mc := by
        rintro (hnil | hlisted)
        · exact htypes hnil
        · exact hmc hlisted
      have hsole' : SoleName c.predefTypes rest r :=
        fun mc' hmc' => hsole mc' (List.mem_cons_of_mem _ hmc')
      have haccepts' : ∃ mc' ∈ rest, Accepts c.predefTypes r mc' := by
        obtain ⟨mc', hmc', ha⟩ := haccepts
        rcases List.mem_cons.mp hmc' with rfl | hrest
        · exact absurd ha hnot
        · exact ⟨mc', hrest, ha⟩
      obtain ⟨before, mc', after, branch', t', rfl, hbefore, ha, hbranch', huntested, htested⟩ :=
        ih hsole' haccepts'
      refine ⟨mc :: before, mc', after, branch', t', rfl, ?_, ha, hbranch', ?_, ?_⟩
      · exact List.forall_mem_cons.mpr ⟨hnot, hbefore⟩
      · intro h
        cases h.1
      · intro _ ctx h h₁ v hnative hv hread hkept o h'
        have htest := evaluates_typeTest hnative hread hkept hcond
        have hfalse := mt (any_instanceOf_iff hsole List.mem_cons_self hv).mp hmc
        rw [Bool.not_eq_true] at hfalse
        rw [hfalse] at htest
        rw [evaluates_IF_iff htest]
        -- the value is read already, so the tests that follow leave everything as it is
        by_cases hfirst : before = [] ∧ mc'.types = []
        · rw [huntested hfirst]
          exact Iff.rfl
        · exact htested hfirst hnative hv hkept hkept o h'

/-- In the scope of a case, and in whatever is reached from there, the name of the match and
the variable of the case have this value; the first is read and not computed. -/
def Bound (key : String) (mc : MATCH_CASE) (ctx : EvaluationContext) (h : Heap) (v : EVALUATED) :
    Prop :=
  ∀ h₁, Later (bodyScope key mc ctx h).2 h₁ →
    Evaluates (.REF key) ctx h₁ (.Right v) h₁ ∧
      ∀ q x, mc.newVarName = some (.VALID q x) →
        ∃ h₂, Evaluates (.REF x) (bodyScope key mc ctx h).1 h₁ (.Right v) h₂

omit [FINAL.SetOrder] in
theorem bound_of_memoized {key : String} {mc : MATCH_CASE} {ctx : EvaluationContext} {h : Heap}
    {v : EVALUATED} {place : ℕ} (hlet : ctx.letDefs key = some place)
    (hcell : h.cells[place]? = some (.memoized (.ok v))) : Bound key mc ctx h v := by
  intro h₁ hlater
  unfold bodyScope at hlater ⊢
  cases hname : mc.newVarName with
  | none =>
    rw [hname] at hlater
    refine ⟨later_REF_of_memoized hlet hcell hlater, fun q x hx => ?_⟩
    cases hx
  | some nv =>
    rw [hname] at hlater
    cases nv with
    | INVALID q m =>
      refine ⟨later_REF_of_memoized hlet hcell hlater, fun q x hx => ?_⟩
      cases hx
    | VALID q x =>
      let start := h.alloc (.delayed x (.REF key) ctx)
      have hstart : start.cells[place]? = some (.memoized (.ok v)) ∧
          (start.cells[h.cells.length]? = some (.delayed x (.REF key) ctx) ∨
            start.cells[h.cells.length]? = some (.memoized (.ok v))) :=
        ⟨Heap.alloc_getElem?_of_some hcell, .inl (Heap.alloc_getElem?_self h _)⟩
      obtain ⟨hkept, hx⟩ := hlater.invariant (lasts_reference hlet) hstart
      have hread := evaluates_REF_memoized hlet hkept
      refine ⟨hread, fun q' x' hx' => ?_⟩
      cases hx'
      have hlet' := EvaluationContext.withLet_letDefs_self ctx x h.cells.length
      rcases hx with hdelayed | hmemoized
      · exact ⟨_, evaluates_REF_delayed hlet' hdelayed hread⟩
      · exact ⟨_, evaluates_REF_memoized hlet' hmemoized⟩

/-- In the scope of a case, and in whatever is reached from there, as long as the value of the
match has not been used: its first use computes it, and from then on it is read. -/
def FirstUse (key : String) (scrutinee : EXPR) (outer : EvaluationContext) (place : ℕ)
    (mc : MATCH_CASE) (ctx : EvaluationContext) (h : Heap) : Prop :=
  ∀ h₁, Later (bodyScope key mc ctx h).2 h₁ →
    h₁.cells[place]? = some (.delayed key scrutinee outer) →
    ∀ v h₂, Evaluates scrutinee outer h₁ (.Right v) h₂ →
      (∃ h₃, Evaluates (.REF key) ctx h₁ (.Right v) h₃ ∧
        ∀ h₄, Later h₃ h₄ → Evaluates (.REF key) ctx h₄ (.Right v) h₄) ∧
      ∀ q x, mc.newVarName = some (.VALID q x) →
        h₁.cells[h.cells.length]? = some (.delayed x (.REF key) ctx) →
        ∃ h₃, Evaluates (.REF x) (bodyScope key mc ctx h).1 h₁ (.Right v) h₃

omit [FINAL.SetOrder] in
theorem firstUse {key : String} {scrutinee : EXPR} {outer : EvaluationContext} {place : ℕ}
    {mc : MATCH_CASE} {ctx : EvaluationContext} {h : Heap} (hlet : ctx.letDefs key = some place) :
    FirstUse key scrutinee outer place mc ctx h := by
  intro h₁ _ hcell v h₂ heval
  have hread := evaluates_REF_delayed hlet hcell heval
  refine ⟨⟨_, hread, fun h₄ hlater => ?_⟩, fun q x hx hdelayed => ?_⟩
  · obtain ⟨hlt, -⟩ := List.getElem?_eq_some_iff.mp hcell
    have hkept := Heap.memoize_getElem?_self (hlt.trans_le heval.length_le) key (.ok v)
    exact later_REF_of_memoized hlet hkept hlater
  · unfold bodyScope
    rw [hx]
    exact ⟨_, evaluates_REF_delayed (EvaluationContext.withLet_letDefs_self ctx x _) hdelayed
      hread⟩

/-- The code runs as the body of one case, with the name of the match and the variable of the
case declared: after a test, with the value kept, and otherwise with the value as it is stored. -/
def RunsCase (key : String) (scrutinee code body : EXPR) (mc : MATCH_CASE) (tested : Prop)
    (r : REAL) (ctx : EvaluationContext) (h : Heap) : Prop :=
  let place := h.cells.length
  let inner := ctx.withLet key place
  let stored := h.alloc (.delayed key scrutinee ctx)
  (¬ tested →
    (∀ o h', Evaluates code ctx h o h' ↔
      Evaluates body (bodyScope key mc inner stored).1 (bodyScope key mc inner stored).2 o h') ∧
    FirstUse key scrutinee ctx place mc inner stored) ∧
  (tested → ∀ v h₁, r.holds v = true → Evaluates scrutinee ctx stored (.Right v) h₁ →
    let kept := h₁.memoize place key (.ok v)
    (∀ o h', Evaluates code ctx h o h' ↔
      Evaluates body (bodyScope key mc inner kept).1 (bodyScope key mc inner kept).2 o h') ∧
    Bound key mc inner kept v)

/-- For every type of the value, the code runs as the first case that takes the type. -/
def RunsFirstCase (γ : CompilerContext) (expr : Expressions.EXPR) (cases : List MATCH_CASE)
    (code : EXPR) (ctx : EvaluationContext) : Prop :=
  let key := refTmpKey γ.tmpArgsIdx
  let γ₁ := γ.withIdx (γ.tmpArgsIdx + 1)
  ∃ typed members unionName scrutinee T, Compiles γ expr typed (.UNION members unionName) ∧
    Compiles γ₁ expr scrutinee T ∧
    ∀ r ∈ members, SoleName γ.predefTypes cases r →
      ∃ before mc after body u, cases = before ++ mc :: after ∧
        (∀ b ∈ before, ¬ Accepts γ.predefTypes r b) ∧ Accepts γ.predefTypes r mc ∧
        Compiles (bodyContext (γ₁.withVar key T) T mc) mc.expr body u ∧
        ∀ h, RunsCase key scrutinee code body mc (¬ (before = [] ∧ mc.types = [])) r ctx h

/-- **A match runs as the first case that takes the type of its value.** The tests of the cases
compute the value once, and it is bound to the variable of the case. When the first case takes
every value, nothing is tested and nothing computed, until the value is used. -/
theorem compileMatch_first_case {γ : CompilerContext} {p : Pos} {expr : Expressions.EXPR}
    {cases : List MATCH_CASE} {code : EXPR} {t : FINAL} {ctx : EvaluationContext}
    (hcompile : Compiles γ (.MATCH p expr cases) code t)
    (hsig : γ.functionDefs "_isInstanceOf" = some [isInstanceOfSignature])
    (hnative : ctx.functions PureContext._isInstanceOf.header =
      some PureContext._isInstanceOf.function) : RunsFirstCase γ expr cases code ctx := by
  obtain ⟨n, c₁, c', hn⟩ := hcompile
  cases n with
  | zero => exact absurd hn returns_outOfFuel
  | succ n =>
    obtain ⟨-, ⟨typed, members, unionName, htyped, further, hmk, scrutinee, T, hscrutinee, -,
      casesCode, c₂, hbody, rfl, matched, hflat, hexhaustive⟩⟩ :=
      returns_compileMatch (keeps_compileExprWithCtx n) hn
    refine ⟨typed, members, unionName, scrutinee, T, compiles_of_compileExpr htyped,
      compiles_of_compileExpr hscrutinee, fun r hr hsole => ?_⟩
    let key := refTmpKey γ.tmpArgsIdx
    let c := (γ.withIdx (γ.tmpArgsIdx + 1)).withVar key T
    have htypes : (γ.withIdx (γ.tmpArgsIdx + 1)).predefTypes = c.predefTypes := rfl
    have hcode : CasesCode c key (blockWithNewVar (.REF p (.VALID p key)) (shadowable typed)) cases
        casesCode := by
      cases cases with
      | nil => cases hmk
      | cons head rest => exact casesCode_of_ifCases htypes hsig hmk ⟨n, c₁, c₂, hbody⟩
    have haccepts := exists_accepts_of_exhaustive hflat hexhaustive hr
    obtain ⟨before, mc, after, branch, u, hsplit, hbefore, hmc, hbranch, huntested, htested⟩ :=
      exists_case_of_casesCode hcode hsole haccepts
    have hkey : c.varDefs key = some T := Function.update_self ..
    obtain ⟨body, hbodyCode, hruns⟩ := compiles_blockWithNewVar hkey hbranch
    refine ⟨before, mc, after, body, u, hsplit, hbefore, hmc, hbodyCode, fun h => ?_⟩
    have hlet := EvaluationContext.withLet_letDefs_self ctx key h.cells.length
    have hstored := Heap.alloc_getElem?_self h (.delayed key scrutinee ctx)
    constructor
    · intro hfirst
      refine ⟨fun o h' => ?_, firstUse hlet⟩
      rw [evaluates_LET_BLOCK_iff, huntested (not_not.mp hfirst)]
      exact hruns _ _ o h'
    · intro hnot v h₁ hv heval
      obtain ⟨hlt, -⟩ := List.getElem?_eq_some_iff.mp hstored
      have hkept := Heap.memoize_getElem?_self (hlt.trans_le heval.length_le) key (.ok v)
      refine ⟨fun o h' => ?_, bound_of_memoized hlet hkept⟩
      have hnative' : (ctx.withLet key h.cells.length).functions PureContext._isInstanceOf.header =
        some PureContext._isInstanceOf.function := hnative
      have hread := evaluates_REF_delayed hlet hstored heval
      rw [evaluates_LET_BLOCK_iff,
        htested hnot hnative' hv hread (evaluates_REF_memoized hlet hkept) o h']
      exact hruns _ _ o h'

end

/-! ## 7. Matches of one variable -/

section

local instance listedOrder : FINAL.SetOrder := ⟨id, FINAL.mem_id⟩

/-- Where a script starts. -/
def origin : Pos := ⟨0, 0⟩

/-- A context with one variable, and with the functions that a match is compiled to. -/
def oneVariable (predefTypes : List (String × FINAL)) (t : FINAL) : CompilerContext where
  predefTypes := predefTypes
  varDefs := fun name => if name = "x" then some t else none
  functionDefs := fun name =>
    if name = "_isInstanceOf" then some [isInstanceOfSignature]
    else if name = "throw" then
      some [⟨.final .NOTHING, [], PureContext.throwNoMessage.header⟩,
        ⟨.final .NOTHING, [("err", .final (.real .STRING))], PureContext.throwWithMessage.header⟩]
    else none
  tmpArgsIdx := 0

/-- The scope of the variable. -/
def oneValueScope : EvaluationContext where
  typeDefs := fun _ => none
  letDefs := fun name => if name = "x" then some 0 else none
  functions := fun header =>
    ([PureContext._isInstanceOf, PureContext.throwWithMessage, PureContext.throwNoMessage].find?
      fun d => decide (d.header = header)).map PureContext.Definition.function

def oneValue (v : EVALUATED) : Heap := ⟨[.memoized (.ok v)], []⟩

/-- A match of the variable. -/
def matchX (cases : List MATCH_CASE) : Expressions.EXPR :=
  .MATCH origin (.REF origin (.VALID origin "x")) cases

/-- The match is compiled and run. -/
def runMatch (predefTypes : List (String × FINAL)) (t : FINAL) (cases : List MATCH_CASE)
    (v : EVALUATED) : Option (EXPR × Outcome EVALUATED × Heap) :=
  match ((compileExprWithCtx 20 (matchX cases)).run (oneVariable predefTypes t)).run with
  | some (.ok r) => (evalExpr 20 r.1.2.1 oneValueScope (oneValue v)).map fun o => (r.1.2.1, o)
  | _ => none

theorem compiles_and_evaluates_of_runMatch {predefTypes : List (String × FINAL)} {t : FINAL}
    {cases : List MATCH_CASE} {v : EVALUATED} {code : EXPR} {o : Outcome EVALUATED} {h : Heap}
    (hrun : runMatch predefTypes t cases v = some (code, o, h)) :
    (∃ u, Compiles (oneVariable predefTypes t) (matchX cases) code u) ∧
      Evaluates code oneValueScope (oneValue v) o h := by
  unfold runMatch at hrun
  split at hrun
  · rename_i r hr
    obtain ⟨⟨c₁, code', u⟩, c'⟩ := r
    cases heval : evalExpr 20 code' oneValueScope (oneValue v) with
    | none => simp [heval] at hrun
    | some result =>
      simp only [heval, Option.map_some, Option.some.injEq, Prod.mk.injEq] at hrun
      obtain ⟨rfl, rfl⟩ := hrun
      exact ⟨⟨u, 20, c₁, c', hr⟩, 20, heval⟩
  · cases hrun

def caseOf (name : Option String) (types : List String) (taken : Bool) : MATCH_CASE :=
  .mk origin (name.map (.VALID origin)) (types.map (.VALID origin))
    (if taken then .TRUE origin else .FALSE origin)

/-- A number or a text. -/
def numberOrText : FINAL := .UNION [.LONG, .STRING] none

def primitives : List (String × FINAL) := [("Int", .real .LONG), ("String", .real .STRING)]

/-- `match x { case a: Int => true case b: String => false }`. -/
def numberFirst : List MATCH_CASE :=
  [caseOf (some "a") ["Int"] true, caseOf (some "b") ["String"] false]

theorem compileMatch_numberFirst :
    ∃ code, RunsFirstCase (oneVariable primitives numberOrText)
      (.REF origin (.VALID origin "x")) numberFirst code oneValueScope := by
  have hrun : (runMatch primitives numberOrText numberFirst (.CONST_LONG 5)).isSome = true := by
    decide +kernel
  obtain ⟨⟨code, o, h⟩, hsome⟩ := Option.isSome_iff_exists.mp hrun
  obtain ⟨⟨u, hcompile⟩, -⟩ := compiles_and_evaluates_of_runMatch hsome
  exact ⟨code, compileMatch_first_case hcompile rfl rfl⟩

/-- `match x { case _ => true }`. -/
def everyValue : List MATCH_CASE := [caseOf none [] true]

/-- `match x { case a: L => true case b: Int => true }`, of a name for lists. -/
def listFirst : List MATCH_CASE := [caseOf (some "a") ["L"] true, caseOf (some "b") ["Int"] true]

/-- `match x { case a: A => true case b: B => false }`, of two names for types of one name. -/
def sameNames : List MATCH_CASE := [caseOf (some "a") ["A"] true, caseOf (some "b") ["B"] false]

def listNamed : List (String × FINAL) := [("L", .list (.real .LONG)), ("Int", .real .LONG)]

def bareA : REAL := .CASETYPEREF "A" []

def fullA : REAL := .CASETYPEREF "A" [("n", .real .LONG)]

/-- Whether a run gives `true`, and leaves a heap as expected. -/
def givesTrue (expected : Heap → Bool) : Option (EXPR × Outcome EVALUATED × Heap) → Bool
  | some (_, .Right (.CONST_BOOLEAN true), h) => expected h
  | _ => false

theorem exists_of_givesTrue {expected : Heap → Bool} {o : Option (EXPR × Outcome EVALUATED × Heap)}
    (hrun : givesTrue expected o = true) :
    ∃ code h, o = some (code, .Right (.CONST_BOOLEAN true), h) ∧ expected h = true := by
  unfold givesTrue at hrun
  split at hrun
  · exact ⟨_, _, rfl, hrun⟩
  · cases hrun

/-- Whether a run stops with a message. -/
def stopsWith (message : String) : Option (EXPR × Outcome EVALUATED × Heap) → Bool
  | some (_, .Left e, _) => decide (e = message)
  | _ => false

theorem exists_of_stopsWith {message : String} {o : Option (EXPR × Outcome EVALUATED × Heap)}
    (hrun : stopsWith message o = true) : ∃ code h, o = some (code, .Left message, h) := by
  unfold stopsWith at hrun
  split at hrun
  · exact ⟨_, _, by rw [of_decide_eq_true hrun]⟩
  · cases hrun

/-- A first case that takes every value leaves the value of the match uncomputed. A list is
taken by no case that lists its type, and the code throws. An object is taken by the first case
that lists a type of its name, though the type is another. -/
theorem compileMatch_not_first_case :
    ((∃ code u h, Compiles (oneVariable primitives numberOrText) (matchX everyValue) code u ∧
        Evaluates code oneValueScope (oneValue (.CONST_LONG 5)) (.Right (.CONST_BOOLEAN true)) h ∧
        h.log = [])) ∧
      (REAL.holds (.LIST (.real .LONG)) (.ARR []) = true ∧
        ∃ code u h, Compiles (oneVariable listNamed (.UNION [.LIST (.real .LONG), .LONG] none))
            (matchX listFirst) code u ∧
          Evaluates code oneValueScope (oneValue (.ARR []))
            (.Left PureContext.defaultThrowMessage.s) h) ∧
      (fullA.holds (.CaseObj "A" [("n", .CONST_LONG 5)]) = true ∧
        ∃ code u h, Compiles (oneVariable [("A", .real bareA), ("B", .real fullA)]
            (.UNION [bareA, fullA] none)) (matchX sameNames) code u ∧
          Evaluates code oneValueScope (oneValue (.CaseObj "A" [("n", .CONST_LONG 5)]))
            (.Right (.CONST_BOOLEAN true)) h) := by
  refine ⟨?_, ⟨by decide +kernel, ?_⟩, ⟨by decide +kernel, ?_⟩⟩
  · have hrun : givesTrue (fun h => h.log.isEmpty)
        (runMatch primitives numberOrText everyValue (.CONST_LONG 5)) = true := by
      decide +kernel
    obtain ⟨code, h, hsome, hlog⟩ := exists_of_givesTrue hrun
    obtain ⟨⟨u, hcompile⟩, heval⟩ := compiles_and_evaluates_of_runMatch hsome
    exact ⟨code, u, h, hcompile, heval, List.isEmpty_iff.mp hlog⟩
  · have hrun : stopsWith PureContext.defaultThrowMessage.s
        (runMatch listNamed (.UNION [.LIST (.real .LONG), .LONG] none) listFirst (.ARR [])) =
          true := by
      decide +kernel
    obtain ⟨code, h, hsome⟩ := exists_of_stopsWith hrun
    obtain ⟨⟨u, hcompile⟩, heval⟩ := compiles_and_evaluates_of_runMatch hsome
    exact ⟨code, u, h, hcompile, heval⟩
  · have hrun : givesTrue (fun _ => true)
        (runMatch [("A", .real bareA), ("B", .real fullA)] (.UNION [bareA, fullA] none) sameNames
          (.CaseObj "A" [("n", .CONST_LONG 5)])) = true := by
      decide +kernel
    obtain ⟨code, h, hsome, -⟩ := exists_of_givesTrue hrun
    obtain ⟨⟨u, hcompile⟩, heval⟩ := compiles_and_evaluates_of_runMatch hsome
    exact ⟨code, u, h, hcompile, heval⟩

end

end Lang

end WavesNode
