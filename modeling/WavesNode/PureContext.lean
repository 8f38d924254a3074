/-
The functions that every script has, and the arithmetic among them.

The operations of `+`, `-`, `*`, `/` and `%` run a method of the virtual machine and turn what
it throws into an error of the script. `fraction` computes with big integers and compares the
result with the bounds of the word itself, and nothing catches what its division throws.

The quotient is the one method that does not throw when its result does not fit.
-/
import WavesNode.EvaluatorV1

set_option autoImplicit false

namespace Long

/-! ## 1. The methods of the virtual machine -/

/-- `Math.subtractExact`. -/
def subtractExact (x y : Long) : Option Long :=
  if InRange (x.toInt - y.toInt) then some (x - y) else none

/-- `Math.multiplyExact`. -/
def multiplyExact (x y : Long) : Option Long :=
  if InRange (x.toInt * y.toInt) then some (x * y) else none

/-- `Math.floorDiv`, of a divisor that is not zero: the quotient of the least word by minus one
is the least word. -/
def floorDiv (x y : Long) : Long := Int64.ofInt (x.toInt.fdiv y.toInt)

/-- `Math.floorMod`, of a divisor that is not zero. -/
def floorMod (x y : Long) : Long := Int64.ofInt (x.toInt.fmod y.toInt)

theorem subtractExact_eq (x y : Long) : subtractExact x y = longValueExact (x.toInt - y.toInt) := by
  unfold subtractExact longValueExact
  by_cases h : InRange (x.toInt - y.toInt)
  · rw [if_pos h, if_pos h]
    have hword : x - y = Int64.ofInt (x.toInt - y.toInt) :=
      toInt_inj (by rw [toInt_sub h, toInt_ofInt h])
    rw [hword]
  · rw [if_neg h, if_neg h]

theorem multiplyExact_eq (x y : Long) : multiplyExact x y = longValueExact (x.toInt * y.toInt) := by
  unfold multiplyExact longValueExact
  by_cases h : InRange (x.toInt * y.toInt)
  · rw [if_pos h, if_pos h]
    have hword : x * y = Int64.ofInt (x.toInt * y.toInt) :=
      toInt_inj (by rw [toInt_mul h, toInt_ofInt h])
    rw [hword]
  · rw [if_neg h, if_neg h]

theorem addExact_eq (x y : Long) : addExact x y = longValueExact (x.toInt + y.toInt) := by
  unfold addExact longValueExact
  by_cases h : InRange (x.toInt + y.toInt)
  · rw [if_pos h, if_pos h]
    have hword : x + y = Int64.ofInt (x.toInt + y.toInt) :=
      toInt_inj (by rw [toInt_add h, toInt_ofInt h])
    rw [hword]
  · rw [if_neg h, if_neg h]

/-- A remainder fits, whatever the divisor. -/
theorem inRange_fmod (x y : Long) (hy : y.toInt ≠ 0) : InRange (x.toInt.fmod y.toInt) := by
  obtain ⟨hlo, hhi⟩ := inRange_toInt y
  rcases Int.lt_or_gt_of_ne hy with hneg | hpos
  · have hge := Int.fmod_nonneg_of_pos (-x.toInt) (show 0 < -y.toInt by omega)
    have hlt := Int.fmod_lt_of_pos (-x.toInt) (show 0 < -y.toInt by omega)
    rw [Int.neg_fmod_neg] at hge hlt
    exact ⟨by omega, by omega⟩
  · have hge := Int.fmod_nonneg_of_pos x.toInt hpos
    have hlt := Int.fmod_lt_of_pos x.toInt hpos
    exact ⟨by omega, by omega⟩

/-- A quotient by a positive number lies between the dividend and zero. -/
private theorem fdiv_bounds (z : ℤ) {k : ℤ} (hk : 0 < k) :
    (0 ≤ z → 0 ≤ z.fdiv k ∧ z.fdiv k ≤ z) ∧ (z < 0 → z ≤ z.fdiv k ∧ z.fdiv k < 0) := by
  have hle := Int.mul_fdiv_self_le (x := z) hk
  have hlt := Int.lt_mul_fdiv_self_add (x := z) hk
  generalize z.fdiv k = q at hle hlt
  refine ⟨fun hz => ⟨?_, ?_⟩, fun hz => ⟨?_, ?_⟩⟩
  · by_contra hq
    nlinarith
  · by_contra hq
    nlinarith
  · by_contra hq
    nlinarith
  · by_contra hq
    nlinarith

/-- A quotient fits, except that of the least word by minus one. -/
theorem inRange_fdiv_iff (x y : Long) (hy : y.toInt ≠ 0) :
    InRange (x.toInt.fdiv y.toInt) ↔ ¬ (x.toInt = -9223372036854775808 ∧ y.toInt = -1) := by
  obtain ⟨hlo, hhi⟩ := inRange_toInt x
  rcases Int.lt_or_gt_of_ne hy with hneg | hpos
  · have hk : 0 < -y.toInt := by omega
    obtain ⟨hnonneg, hnegative⟩ := fdiv_bounds (-x.toInt) hk
    have hle := Int.mul_fdiv_self_le (x := -x.toInt) hk
    rw [Int.neg_fdiv_neg] at hnonneg hnegative hle
    unfold InRange
    constructor
    · rintro hin ⟨hx, hy1⟩
      rw [hx, hy1] at hin
      revert hin
      decide
    · intro hne
      by_cases hx : x.toInt = -9223372036854775808
      · -- the divisor is at most minus two
        have hhalf : 2 * x.toInt.fdiv y.toInt ≤ -x.toInt := by
          have hq := (hnonneg (by omega)).1
          have hk2 : 2 ≤ -y.toInt := by omega
          have hmul := Int.mul_le_mul_of_nonneg_right hk2 hq
          omega
        omega
      · omega
  · obtain ⟨hnonneg, hnegative⟩ := fdiv_bounds x.toInt hpos
    unfold InRange
    refine iff_of_true ?_ (by omega)
    omega

end Long

namespace WavesNode

namespace Lang

/-! ## 2. Native functions -/

/-- `getSimpleName` of the class of a value. -/
def EVALUATED.simpleName : EVALUATED → String
  | .CONST_LONG _ => "CONST_LONG"
  | .CONST_BYTESTR _ => "CONST_BYTESTR"
  | .CONST_STRING _ => "CONST_STRING"
  | .CONST_BOOLEAN _ => "CONST_BOOLEAN"
  | .CaseObj _ _ => "CaseObj"
  | .ARR _ => "ARR"

/-- `notImplemented`. -/
def notImplemented (funcName : String) (args : List EVALUATED) : Outcome EVALUATED :=
  let names := ", ".intercalate (args.map EVALUATED.simpleName)
  .Left s!"Can't apply ({names}) to '{funcName}'"

/-- A method of the virtual machine: what it returns, or what it throws. -/
abbrev Method := Long → Long → Except Throwable Long

namespace Math

/-- A method that throws when its result does not fit. -/
def checked (exact : Long → Long → Option Long) : Method := fun a b =>
  match exact a b with
  | some r => .ok r
  | none => .error (.ArithmeticException "long overflow")

/-- A method that throws when it is to divide by zero. -/
def divided (quotient : Long → Long → Long) : Method := fun a b =>
  if b = 0 then .error (.ArithmeticException "/ by zero") else .ok (quotient a b)

def multiplyExact : Method := checked Long.multiplyExact

def addExact : Method := checked Long.addExact

def subtractExact : Method := checked Long.subtractExact

def floorDiv : Method := divided Long.floorDiv

def floorMod : Method := divided Long.floorMod

end Math

namespace PureContext

/-- A function that every script has, and the header that it is called by. -/
structure Definition where
  header : FunctionHeader
  function : BaseFunction

/-- `createTryOp`: what the method throws is an error. -/
def createTryOp (op : String) (func : Int16) (body : Method) : Definition where
  header := .Native func
  function := .NativeFunction op fun
    | [.CONST_LONG a, .CONST_LONG b] =>
      match body a b with
      | .ok r => .Right (.CONST_LONG r)
      | .error e => .Left e.getMessage
    | xs => notImplemented s!"{op}(a: Int, b: Int)" xs

def mulLong : Definition := createTryOp "*" 104 Math.multiplyExact

def divLong : Definition := createTryOp "/" 105 Math.floorDiv

def modLong : Definition := createTryOp "%" 106 Math.floorMod

def sumLong : Definition := createTryOp "+" 100 Math.addExact

def subLong : Definition := createTryOp "-" 101 Math.subtractExact

/-- `BigInt(v) * n / d`. -/
def bigFraction (v n d : Long) : Except Throwable ℤ :=
  if d = 0 then .error (.ArithmeticException "BigInteger divide by zero")
  else .ok ((v.toInt * n.toInt).tdiv d.toInt)

def fraction : Definition where
  header := .Native 107
  function := .NativeFunction "fraction" fun
    | [.CONST_LONG v, .CONST_LONG n, .CONST_LONG d] =>
      match bigFraction v n d with
      | .error t => .thrown t
      | .ok result =>
        if ¬ result < Long.MaxValue.toInt then
          .Left s!"Long overflow: value `{result}` greater than 2^63-1"
        else if ¬ result > Long.MinValue.toInt then
          .Left s!"Long overflow: value `{result}` less than -2^63-1"
        else .Right (.CONST_LONG (Int64.ofInt result))
    | xs => notImplemented "fraction(value: Int, numerator: Int, denominator: Int)" xs

def uMinus : Definition where
  header := .User "-"
  function := .UserFunction "-" ["@n"]
    (.FUNCTION_CALL subLong.header [.evaluated (.CONST_LONG 0), .REF "@n"])

/-- Is the value of the type of that name? Objects carry the name of their type. -/
def instanceOf : EVALUATED → String → Bool
  | .CONST_BOOLEAN _, of => of == "Boolean"
  | .CONST_BYTESTR _, of => of == "ByteVector"
  | .CONST_STRING _, of => of == "String"
  | .CONST_LONG _, of => of == "Int"
  | .CaseObj caseType _, of => caseType == of
  | .ARR _, _ => false

def _isInstanceOf : Definition where
  header := .Native 1
  function := .NativeFunction "_isInstanceOf" fun
    | [obj, .CONST_STRING of] => .Right (.CONST_BOOLEAN (instanceOf obj of.s))
    | _ => .Right (.CONST_BOOLEAN false)

def defaultThrowMessage : ConstString := ⟨"Explicit script termination", by decide +kernel⟩

def throwWithMessage : Definition where
  header := .Native 2
  function := .NativeFunction "throw" fun
    | [.CONST_STRING s] => .Left s.s
    | _ => .Left defaultThrowMessage.s

def throwNoMessage : Definition where
  header := .User "throw"
  function := .UserFunction "throw" []
    (.FUNCTION_CALL throwWithMessage.header [.evaluated (.CONST_STRING defaultThrowMessage)])

/-- The functions of arithmetic. -/
def arithmetic : List Definition :=
  [mulLong, divLong, modLong, sumLong, subLong, fraction, uMinus]

/-- The context has these functions. -/
def Provides (ctx : EvaluationContext) (definitions : List Definition) : Prop :=
  ∀ d ∈ definitions, ctx.functions d.header = some d.function

/-! ## 3. Calls of arithmetic -/

/-- A call of an operation with the values of its arguments. -/
inductive ArithmeticCall where
  | mul (a b : Long)
  | div (a b : Long)
  | mod (a b : Long)
  | sum (a b : Long)
  | sub (a b : Long)
  | fraction (value numerator denominator : Long)
  | uMinus (n : Long)

namespace ArithmeticCall

def function : ArithmeticCall → Definition
  | .mul _ _ => mulLong
  | .div _ _ => divLong
  | .mod _ _ => modLong
  | .sum _ _ => sumLong
  | .sub _ _ => subLong
  | .fraction _ _ _ => PureContext.fraction
  | .uMinus _ => PureContext.uMinus

def args : ArithmeticCall → List Long
  | .mul a b | .div a b | .mod a b | .sum a b | .sub a b => [a, b]
  | .fraction v n d => [v, n, d]
  | .uMinus n => [n]

def expr (call : ArithmeticCall) : EXPR :=
  .FUNCTION_CALL call.function.header (call.args.map fun a => .evaluated (.CONST_LONG a))

/-- The result, where there is one. -/
def result : ArithmeticCall → Option ℤ
  | .mul a b => some (a.toInt * b.toInt)
  | .div a b => if b.toInt = 0 then none else some (a.toInt.fdiv b.toInt)
  | .mod a b => if b.toInt = 0 then none else some (a.toInt.fmod b.toInt)
  | .sum a b => some (a.toInt + b.toInt)
  | .sub a b => some (a.toInt - b.toInt)
  | .fraction v n d => if d.toInt = 0 then none else some ((v.toInt * n.toInt).tdiv d.toInt)
  | .uMinus n => some (-n.toInt)

/-- The outcome is the result if it is a word, and an error if it is not or if there is none. -/
def Exact (call : ArithmeticCall) (o : Outcome EVALUATED) : Prop :=
  match call.result.bind Long.longValueExact with
  | some r => o = .Right (.CONST_LONG r)
  | none => ∃ e, o = .Left e

/-- Not the least word divided by minus one, and of fractions, none by zero and none that is
the least or the greatest word. -/
def Within : ArithmeticCall → Prop
  | .div a b => ¬ (a.toInt = -9223372036854775808 ∧ b.toInt = -1)
  | .fraction v n d => d.toInt ≠ 0 ∧
      (v.toInt * n.toInt).tdiv d.toInt ≠ -9223372036854775808 ∧
      (v.toInt * n.toInt).tdiv d.toInt ≠ 9223372036854775807
  | _ => True

/-! ## 4. What an operation returns -/

/-- The outcome of an operator on two words. -/
def tried (body : Method) (a b : Long) : Outcome EVALUATED :=
  match body a b with
  | .ok r => .Right (.CONST_LONG r)
  | .error e => .Left e.getMessage

/-- The outcome of a call. -/
def outcome : ArithmeticCall → Outcome EVALUATED
  | .mul a b => tried Math.multiplyExact a b
  | .div a b => tried Math.floorDiv a b
  | .mod a b => tried Math.floorMod a b
  | .sum a b => tried Math.addExact a b
  | .sub a b => tried Math.subtractExact a b
  | .uMinus n => tried Math.subtractExact 0 n
  | .fraction v n d =>
    match bigFraction v n d with
    | .error t => .thrown t
    | .ok result =>
      if ¬ result < Long.MaxValue.toInt then
        .Left s!"Long overflow: value `{result}` greater than 2^63-1"
      else if ¬ result > Long.MinValue.toInt then
        .Left s!"Long overflow: value `{result}` less than -2^63-1"
      else .Right (.CONST_LONG (Int64.ofInt result))

section
variable {call : ArithmeticCall} {z : ℤ}

/-- A word is exact when it is the result. -/
theorem exact_right_iff (hresult : call.result = some z) :
    call.Exact (.Right (.CONST_LONG (Int64.ofInt z))) ↔ Long.InRange z := by
  unfold Exact
  rw [hresult, Option.bind_some, Long.longValueExact]
  by_cases hz : Long.InRange z
  · simp [hz]
  · simp [hz]

/-- An error is exact when the result is not a word. -/
theorem exact_left_iff (hresult : call.result = some z) (e : String) :
    call.Exact (.Left e) ↔ ¬ Long.InRange z := by
  unfold Exact
  rw [hresult, Option.bind_some, Long.longValueExact]
  by_cases hz : Long.InRange z
  · simp [hz]
  · simp [hz]

theorem exact_left_of_none (hresult : call.result = none) (e : String) : call.Exact (.Left e) := by
  unfold Exact
  rw [hresult, Option.bind_none]
  exact ⟨e, rfl⟩

/-- A checked method is exact. -/
theorem exact_checked {exact : Long → Long → Option Long} {a b : Long}
    (hresult : call.result = some z) (hexact : exact a b = Long.longValueExact z) :
    call.Exact (tried (Math.checked exact) a b) := by
  unfold tried Math.checked
  rw [hexact, Long.longValueExact]
  by_cases hz : Long.InRange z
  · rw [if_pos hz]
    exact (exact_right_iff hresult).mpr hz
  · rw [if_neg hz]
    exact (exact_left_iff hresult _).mpr hz

end

private theorem toInt_eq_zero_iff {d : Long} : d.toInt = 0 ↔ d = 0 := by
  rw [Long.eq_iff, Long.toInt_zero]

theorem exact_div_iff (a b : Long) :
    (ArithmeticCall.div a b).Exact (ArithmeticCall.div a b).outcome ↔
      (ArithmeticCall.div a b).Within := by
  have houtcome : (ArithmeticCall.div a b).outcome = tried Math.floorDiv a b := rfl
  rw [houtcome, Math.floorDiv, tried, Math.divided]
  by_cases hb : b = 0
  · have hb' : b.toInt = 0 := toInt_eq_zero_iff.mpr hb
    have hresult : (ArithmeticCall.div a b).result = none := if_pos hb'
    rw [if_pos hb]
    refine iff_of_true (exact_left_of_none hresult _) ?_
    simp [Within, hb']
  · have hb' : b.toInt ≠ 0 := fun h => hb (toInt_eq_zero_iff.mp h)
    have hresult : (ArithmeticCall.div a b).result = some (a.toInt.fdiv b.toInt) := if_neg hb'
    rw [if_neg hb]
    exact (exact_right_iff hresult).trans (Long.inRange_fdiv_iff a b hb')

theorem exact_mod (a b : Long) :
    (ArithmeticCall.mod a b).Exact (ArithmeticCall.mod a b).outcome := by
  have houtcome : (ArithmeticCall.mod a b).outcome = tried Math.floorMod a b := rfl
  rw [houtcome, Math.floorMod, tried, Math.divided]
  by_cases hb : b = 0
  · have hresult : (ArithmeticCall.mod a b).result = none := if_pos (toInt_eq_zero_iff.mpr hb)
    rw [if_pos hb]
    exact exact_left_of_none hresult _
  · have hb' : b.toInt ≠ 0 := fun h => hb (toInt_eq_zero_iff.mp h)
    have hresult : (ArithmeticCall.mod a b).result = some (a.toInt.fmod b.toInt) := if_neg hb'
    rw [if_neg hb]
    exact (exact_right_iff hresult).mpr (Long.inRange_fmod a b hb')

theorem exact_fraction_iff (v n d : Long) :
    (ArithmeticCall.fraction v n d).Exact (ArithmeticCall.fraction v n d).outcome ↔
      (ArithmeticCall.fraction v n d).Within := by
  simp only [outcome, bigFraction, Within]
  by_cases hd : d = 0
  · have hd' : d.toInt = 0 := toInt_eq_zero_iff.mpr hd
    rw [if_pos hd]
    refine iff_of_false ?_ fun h => h.1 hd'
    -- nothing catches the division by zero
    simp [Exact, result, hd']
  · have hd' : d.toInt ≠ 0 := fun h => hd (toInt_eq_zero_iff.mp h)
    have hresult : (ArithmeticCall.fraction v n d).result =
        some ((v.toInt * n.toInt).tdiv d.toInt) := if_neg hd'
    rw [if_neg hd]
    dsimp only
    generalize (v.toInt * n.toInt).tdiv d.toInt = q at hresult
    rw [Long.toInt_MaxValue, Long.toInt_MinValue]
    by_cases hhi : q < 9223372036854775807
    · rw [if_neg (not_not.mpr hhi)]
      by_cases hlo : q > -9223372036854775808
      · rw [if_neg (not_not.mpr hlo), exact_right_iff hresult]
        exact iff_of_true ⟨by omega, by omega⟩ ⟨hd', by omega, by omega⟩
      · rw [if_pos hlo, exact_left_iff hresult, Long.InRange]
        omega
    · rw [if_pos hhi, exact_left_iff hresult, Long.InRange]
      omega

theorem exact_outcome_iff (call : ArithmeticCall) : call.Exact call.outcome ↔ call.Within := by
  cases call with
  | mul a b => exact iff_of_true (exact_checked rfl (Long.multiplyExact_eq a b)) trivial
  | sum a b => exact iff_of_true (exact_checked rfl (Long.addExact_eq a b)) trivial
  | sub a b => exact iff_of_true (exact_checked rfl (Long.subtractExact_eq a b)) trivial
  | div a b => exact exact_div_iff a b
  | mod a b => exact iff_of_true (exact_mod a b) trivial
  | fraction v n d => exact exact_fraction_iff v n d
  | uMinus n =>
    refine iff_of_true (exact_checked (z := -n.toInt) rfl ?_) trivial
    rw [Long.subtractExact_eq, Long.toInt_zero, zero_sub]

/-! ## 5. The calls in a script -/

open EvaluatorV1

theorem evaluates_outcome {ctx : EvaluationContext} (hctx : Provides ctx arithmetic)
    (call : ArithmeticCall) (h : Heap) : ∃ h', Evaluates call.expr ctx h call.outcome h' := by
  have hargs (args : List Long) : Traverses ctx (args.map fun a => .evaluated (.CONST_LONG a)) h
      (args.map .CONST_LONG) h := by
    have hvalues : Traverses ctx ((args.map EVALUATED.CONST_LONG).map .evaluated) h
        (args.map .CONST_LONG) h := traverses_evaluated _
    rwa [List.map_map] at hvalues
  cases call with
  | mul a b => exact ⟨h, evaluates_NativeFunction (hctx mulLong (by simp [arithmetic])) (hargs _)⟩
  | div a b => exact ⟨h, evaluates_NativeFunction (hctx divLong (by simp [arithmetic])) (hargs _)⟩
  | mod a b => exact ⟨h, evaluates_NativeFunction (hctx modLong (by simp [arithmetic])) (hargs _)⟩
  | sum a b => exact ⟨h, evaluates_NativeFunction (hctx sumLong (by simp [arithmetic])) (hargs _)⟩
  | sub a b => exact ⟨h, evaluates_NativeFunction (hctx subLong (by simp [arithmetic])) (hargs _)⟩
  | fraction v n d =>
    exact ⟨h, evaluates_NativeFunction (hctx PureContext.fraction (by simp [arithmetic])) (hargs _)⟩
  | uMinus n =>
    have hminus := hctx PureContext.uMinus (by simp [arithmetic])
    have hsub := hctx subLong (by simp [arithmetic])
    -- the parameter is stored, and read where the body refers to it
    have hparam := evaluates_REF_delayed (EvaluationContext.withLet_letDefs_self ctx "@n" _)
      (h.alloc_getElem?_self (.delayed "@n" (.evaluated (.CONST_LONG n)) ctx))
      (evaluates_evaluated (.CONST_LONG n))
    have hsub' : (ctx.withLet "@n" h.cells.length).functions subLong.header =
        some subLong.function := hsub
    have hbody := evaluates_NativeFunction hsub'
      (.cons (evaluates_evaluated (.CONST_LONG 0)) (.cons hparam (.nil _)))
    exact ⟨_, evaluates_UserFunction hminus (hargs [n]) rfl hbody⟩

/-- **Arithmetic is exact or fails**, exactly within its bounds: every call of an operation
ends, and its outcome is the result as a word, or an error where there is none, if and only if
the call is not one of those that `Within` excludes. -/
theorem arithmetic_exact_iff {ctx : EvaluationContext} (hctx : Provides ctx arithmetic)
    (call : ArithmeticCall) (h : Heap) :
    (∃ o h', Evaluates call.expr ctx h o h') ∧
      ∀ o h', Evaluates call.expr ctx h o h' → (call.Exact o ↔ call.Within) := by
  obtain ⟨h₁, heval⟩ := evaluates_outcome hctx call h
  refine ⟨⟨_, _, heval⟩, fun o h' ho => ?_⟩
  rw [(ho.unique heval).1]
  exact exact_outcome_iff call

/-- The context with the functions of arithmetic alone. -/
def context : EvaluationContext where
  typeDefs := fun _ => none
  letDefs := fun _ => none
  functions := fun header =>
    (arithmetic.find? fun d => decide (d.header = header)).map Definition.function

theorem context_provides : Provides context arithmetic := by
  intro d hd
  simp only [arithmetic, List.mem_cons, List.not_mem_nil, or_false] at hd
  rcases hd with rfl | rfl | rfl | rfl | rfl | rfl | rfl <;> rfl

/-- `5 / 2`, in a script. -/
theorem arithmetic_exact_div :
    (∃ o h', Evaluates (ArithmeticCall.div 5 2).expr context ⟨[], []⟩ o h') ∧
      ∀ o h', Evaluates (ArithmeticCall.div 5 2).expr context ⟨[], []⟩ o h' →
        ((ArithmeticCall.div 5 2).Exact o ↔ (ArithmeticCall.div 5 2).Within) :=
  arithmetic_exact_iff context_provides (.div 5 2) ⟨[], []⟩

/-- The least word divided by minus one is the least word; a fraction that is the greatest word
is refused; and a fraction by zero throws. -/
theorem arithmetic_not_exact :
    (¬ (ArithmeticCall.div (-9223372036854775808) (-1)).Exact
        (ArithmeticCall.div (-9223372036854775808) (-1)).outcome ∧
      Evaluates (ArithmeticCall.div (-9223372036854775808) (-1)).expr context ⟨[], []⟩
        (.Right (.CONST_LONG (-9223372036854775808))) ⟨[], []⟩) ∧
    (¬ (ArithmeticCall.fraction 9223372036854775807 1 1).Exact
        (ArithmeticCall.fraction 9223372036854775807 1 1).outcome) ∧
    Evaluates (ArithmeticCall.fraction 1 1 0).expr context ⟨[], []⟩
      (.thrown (.ArithmeticException "BigInteger divide by zero")) ⟨[], []⟩ := by
  refine ⟨⟨?_, 3, rfl⟩, ?_, 3, rfl⟩
  · rw [exact_div_iff]
    simp only [Within]
    decide
  · rw [exact_fraction_iff]
    simp only [Within]
    decide

end ArithmeticCall

end PureContext

end Lang

end WavesNode
