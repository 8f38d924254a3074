/-
Expressions as bytes.

A tag stands before everything, a length before a text and a count before a list. The writer
knows the values a program may hold and no other (`???` throws), and writes into an array of
the virtual machine, which has less than 2^31 bytes. The reader takes a tag and what belongs
to it; a count is compared with what remains, so that it cannot ask for more than is there.

`takes_desAux` is the round trip: what was written for an expression is read as that
expression, wherever it stands, and not a byte more. It is by induction on the expression,
where the bound on the whole array is a bound on every length and count in it.
-/
import WavesNode.Terms
import WavesNode.Utf8

set_option autoImplicit false

namespace WavesNode

theorem Except.bind_eq_ok {ε α β : Type} {x : Except ε α} {f : α → Except ε β} {b : β} :
    x >>= f = .ok b ↔ ∃ a, x = .ok a ∧ f a = .ok b := by
  cases x with
  | error e =>
    refine iff_of_false (fun h => ?_) (fun ⟨a, ha, _⟩ => ?_)
    · cases h
    · cases ha
  | ok a =>
    constructor
    · exact fun h => ⟨a, rfl, h⟩
    · rintro ⟨a', ha, h⟩
      cases ha
      exact h

namespace Lang

open ByteBuffer

namespace Serde

def E_LONG : Byte := 0
def E_BYTES : Byte := 1
def E_STRING : Byte := 2
def E_IF : Byte := 3
def E_BLOCK : Byte := 4
def E_REF : Byte := 5
def E_TRUE : Byte := 6
def E_FALSE : Byte := 7
def E_GETTER : Byte := 8
def E_FUNCALL : Byte := 9

def FH_NATIVE : Byte := 0
def FH_USER : Byte := 1

def E_BLOCK_V2 : Byte := 10

def DEC_LET : Byte := 0
def DEC_FUNC : Byte := 1

/-! ## 1. Writing -/

def writeBytes (bytes : ByteStr) : ByteStr := Ints.toByteArray bytes.length ++ bytes

def writeString (x : String) : ByteStr := writeBytes (utf8Bytes x)

def writeFunctionHeader : FunctionHeader → ByteStr
  | .Native id => FH_NATIVE :: Shorts.toByteArray id.toUInt16.toNat
  | .User internalName => FH_USER :: writeString internalName

/-- The constants of `serAux`; it has no case for objects and lists. -/
def serEvaluated : EVALUATED → Except String ByteStr
  | .CONST_LONG n => .ok (E_LONG :: Longs.toByteArray n)
  | .CONST_BYTESTR bs => .ok (E_BYTES :: writeBytes bs.bs)
  | .CONST_STRING s => .ok (E_STRING :: writeString s.s)
  | .CONST_BOOLEAN b => .ok [if b then E_TRUE else E_FALSE]
  | .CaseObj _ _ => .error "an implementation is missing"
  | .ARR _ => .error "an implementation is missing"

mutual

def serAux : EXPR → Except String ByteStr
  | .evaluated v => serEvaluated v
  | .IF cond ifTrue ifFalse => do
    let cond ← serAux cond
    let ifTrue ← serAux ifTrue
    let ifFalse ← serAux ifFalse
    .ok ([E_IF] ++ (cond ++ (ifTrue ++ ifFalse)))
  | .LET_BLOCK name value body => do
    let value ← serAux value
    let body ← serAux body
    .ok ([E_BLOCK] ++ (writeString name ++ (value ++ body)))
  | .BLOCK dec body => do
    let dec ← serializeDeclaration dec
    let body ← serAux body
    .ok ([E_BLOCK_V2] ++ (dec ++ body))
  | .REF key => .ok ([E_REF] ++ writeString key)
  | .GETTER obj field => do
    let obj ← serAux obj
    .ok ([E_GETTER] ++ (obj ++ writeString field))
  | .FUNCTION_CALL header args => do
    let written ← serArgs args
    .ok ([E_FUNCALL] ++ (writeFunctionHeader header ++ (Ints.toByteArray args.length ++ written)))

def serializeDeclaration : DECLARATION → Except String ByteStr
  | .LET name value => do
    let value ← serAux value
    .ok ([DEC_LET] ++ (writeString name ++ value))
  | .FUNC name args body => do
    let body ← serAux body
    .ok ([DEC_FUNC] ++ (writeString name ++
      ((Ints.toByteArray args.length ++ args.flatMap writeString) ++ body)))

/-- The arguments of a call, one after another. -/
def serArgs : List EXPR → Except String ByteStr
  | [] => .ok []
  | arg :: args => do
    let first ← serAux arg
    let rest ← serArgs args
    .ok (first ++ rest)

end

/-- `serialize`; no array is longer than the virtual machine allows. -/
def serialize (expr : EXPR) : Except String ByteStr := do
  let out ← serAux expr
  if out.length < 2 ^ 31 then .ok out else .error "OutOfMemoryError"

/-! ## 2. Reading -/

section

-- the reader of a string; the node's own is `getString`
variable (str : Reader String)

def getFunctionHeader : Reader FunctionHeader := do
  let type ← ByteBuffer.get
  if type = FH_NATIVE then (fun n => .Native (Int16.ofInt n)) <$> getShort
  else if type = FH_USER then .User <$> str
  else throw s!"Unknown function header type: {type}"

/-- A list after its count, which may be at most a part of what remains. -/
def getList {α : Type} (part : ℕ) (tooBig : String) (elem : Reader α) : Reader (List α) := do
  let cnt ← getInt
  let bb ← getThe ByteBuffer
  if cnt ≤ bb.remaining / part ∧ 0 ≤ cnt then fill elem cnt.toNat
  else throw s!"At position {bb.position} {tooBig}"

/-- `deserializeDeclaration`. -/
def deserializeDeclaration (aux : Reader EXPR) (decType : Byte) : Reader DECLARATION :=
  if decType = DEC_LET then do
    let name ← str
    let body ← aux
    pure (.LET name body)
  else if decType = DEC_FUNC then do
    let name ← str
    let args ← getList 2 "array of arguments names too big." str
    let body ← aux
    pure (.FUNC name args body)
  else throw s!"MatchError: {decType}"

/-- What follows a tag. -/
def desTag (des : Reader EXPR) (tag : Byte) : Reader EXPR :=
  if tag = E_LONG then (fun n => .evaluated (.CONST_LONG n)) <$> getLong
  else if tag = E_BYTES then do
    let bs ← WavesNode.Serde.getBytes
    .evaluated <$> StateT.lift (EVALUATED.constBytestr bs)
  else if tag = E_STRING then do
    let s ← str
    .evaluated <$> StateT.lift (EVALUATED.constString s)
  else if tag = E_IF then do
    let cond ← des
    let ifTrue ← des
    let ifFalse ← des
    pure (.IF cond ifTrue ifFalse)
  else if tag = E_BLOCK then do
    let name ← str
    let letValue ← des
    let body ← des
    pure (.LET_BLOCK name letValue body)
  else if tag = E_BLOCK_V2 then do
    let decType ← ByteBuffer.get
    let dec ← deserializeDeclaration str des decType
    let body ← des
    pure (.BLOCK dec body)
  else if tag = E_REF then .REF <$> str
  else if tag = E_TRUE then pure (.evaluated (.CONST_BOOLEAN true))
  else if tag = E_FALSE then pure (.evaluated (.CONST_BOOLEAN false))
  else if tag = E_GETTER then do
    let expr ← des
    let field ← str
    pure (.GETTER expr field)
  else if tag = E_FUNCALL then do
    let header ← getFunctionHeader str
    let args ← getList 1 "array of arguments too big." des
    pure (.FUNCTION_CALL header args)
  else throw s!"MatchError: {tag}"

/-- `desAux`. An expression takes at least a byte, so the bytes there are are fuel enough. -/
def desAux : (fuel : ℕ) → Reader EXPR
  | 0 => throw "BufferUnderflowException"
  | fuel + 1 => do
    let tag ← ByteBuffer.get
    desTag str (desAux fuel) tag

end

/-- `deserialize`: all of an array, unless the rest may stay. -/
def deserialize (bytes : ByteStr) (all : Bool := true) : Except String (EXPR × ℕ) :=
  match desAux WavesNode.Serde.getString (bytes.length + 1) ⟨bytes, 0⟩ with
  | .ok (expr, bb) =>
    if all && bb.remaining ≠ 0 then .error s!"{bb.remaining} bytes left"
    else .ok (expr, bb.remaining)
  | .error m => .error m

/-- `deserialize(bb)`: an expression where the buffer stands. -/
def deserializeBuffer : Reader EXPR := do
  let bb ← getThe ByteBuffer
  desAux WavesNode.Serde.getString (bb.remaining + 1)

/-! ## 3. The parts -/

section

/-- A short string is read as it was written. -/
theorem takes_getBytes {bs : ByteStr} (h : bs.length < 2 ^ 31) :
    Takes WavesNode.Serde.getBytes (writeBytes bs) bs := by
  refine (takes_getInt h).bind (takes_getThe fun b hb => ?_)
  have hcheck : (decide (0 ≤ (bs.length : ℤ)) && decide ((bs.length : ℤ) ≤ b.array.length)) = true := by
    rw [remaining] at hb
    rw [Bool.and_eq_true, decide_eq_true_eq, decide_eq_true_eq]
    omega
  exact (takes_require hcheck).bind (takes_getByteArray rfl)

/-- A reader of strings that reads what was written for one. -/
def TakesStrings (str : Reader String) : Prop :=
  ∀ s : String, (utf8Bytes s).length < 2 ^ 31 → Takes str (writeString s) s

theorem takes_getString : TakesStrings WavesNode.Serde.getString := by
  intro s h
  have hmap := (takes_getBytes h).map (f := decodeUtf8)
  rwa [decodeUtf8_utf8Bytes] at hmap

theorem length_writeString (s : String) :
    (writeString s).length = 4 + (utf8Bytes s).length := by
  rw [writeString, writeBytes, List.length_append, Ints.toByteArray, BigEndian.length_write]

section

variable {str : Reader String} (hstr : TakesStrings str)

include hstr

theorem takes_getFunctionHeader {header : FunctionHeader}
    (h : (writeFunctionHeader header).length < 2 ^ 31) :
    Takes (getFunctionHeader str) (writeFunctionHeader header) header := by
  cases header with
  | Native id =>
    refine (takes_get FH_NATIVE).bind ?_
    have hmap := (takes_getShort id).map (f := fun n => FunctionHeader.Native (Int16.ofInt n))
    rwa [Int16.ofInt_toInt] at hmap
  | User internalName =>
    rw [writeFunctionHeader, List.length_cons, length_writeString] at h
    exact (takes_get FH_USER).bind ((hstr _ (by omega)).map (f := FunctionHeader.User))

omit hstr in
/-- A list whose elements take their share of bytes each is read as it was written. -/
theorem takes_getList {α : Type} {part : ℕ} (hpart : 0 < part) {tooBig : String}
    {elem : Reader α} {as : List α} {bytes : ByteStr} (hfill : Takes (fill elem as.length) bytes as)
    (hlength : as.length * part ≤ bytes.length) (hint : as.length < 2 ^ 31) :
    Takes (getList part tooBig elem) (Ints.toByteArray as.length ++ bytes) as := by
  refine (takes_getInt hint).bind (takes_getThe fun b hb => ?_)
  have hshare : as.length ≤ b.remaining / part :=
    (Nat.le_div_iff_mul_le hpart).mpr (by omega)
  rw [if_pos ⟨by exact_mod_cast hshare, Int.natCast_nonneg _⟩, Int.toNat_natCast]
  exact hfill

theorem takes_names {names : List String} (h : (names.flatMap writeString).length < 2 ^ 31) :
    Takes (getList 2 "array of arguments names too big." str)
      (Ints.toByteArray names.length ++ names.flatMap writeString) names := by
  have hall : ∀ name ∈ names, (writeString name).length ≤ (names.flatMap writeString).length := by
    intro name hname
    obtain ⟨before, after, rfl⟩ := List.append_of_mem hname
    rw [List.flatMap_append, List.flatMap_cons, List.length_append, List.length_append]
    omega
  have hlength : names.length * 2 ≤ (names.flatMap writeString).length := by
    clear h hall
    induction names with
    | nil => exact Nat.le_refl 0
    | cons name names ih =>
      rw [List.flatMap_cons, List.length_append, List.length_cons, length_writeString]
      omega
  refine takes_getList (by omega) (.fill fun name hname => hstr name ?_) hlength (by omega)
  have hname := hall name hname
  rw [length_writeString] at hname
  omega

/-- A constant after its kind. -/
theorem takes_LET {aux : Reader EXPR} {name : String} {value : EXPR} {v : ByteStr}
    (hvalue : Takes aux v value) (hname : (utf8Bytes name).length < 2 ^ 31) :
    Takes (deserializeDeclaration str aux DEC_LET) (writeString name ++ v) (.LET name value) :=
  (hstr _ hname).bind (hvalue.bind_nil (.pure _))

/-- A function after its kind. -/
theorem takes_FUNC {aux : Reader EXPR} {name : String} {args : List String} {body : EXPR}
    {b : ByteStr} (hbody : Takes aux b body) (hname : (utf8Bytes name).length < 2 ^ 31)
    (hargs : (args.flatMap writeString).length < 2 ^ 31) :
    Takes (deserializeDeclaration str aux DEC_FUNC)
      (writeString name ++ ((Ints.toByteArray args.length ++ args.flatMap writeString) ++ b))
      (.FUNC name args body) :=
  (hstr _ hname).bind ((takes_names hstr hargs).bind (hbody.bind_nil (.pure _)))

/-! ## 4. The round trip -/

omit hstr in
/-- What follows a tag, and the tag. -/
theorem takes_tag {tag : Byte} {fuel : ℕ} {bytes : ByteStr} {e : EXPR}
    (h : Takes (desTag str (desAux str fuel) tag) bytes e) :
    Takes (desAux str (fuel + 1)) ([tag] ++ bytes) e :=
  (takes_get tag).bind h

theorem takes_serEvaluated {v : EVALUATED} {bytes : ByteStr} {fuel : ℕ}
    (h : serEvaluated v = .ok bytes) (hsize : bytes.length < 2 ^ 31) (hfuel : bytes.length ≤ fuel) :
    Takes (desAux str fuel) bytes (.evaluated v) := by
  have hfuel' : ∀ {tag : Byte} (rest : ByteStr), bytes = [tag] ++ rest → ∃ n, fuel = n + 1 := by
    rintro tag rest rfl
    rw [List.length_append, List.length_singleton] at hfuel
    exact ⟨fuel - 1, by omega⟩
  cases v with
  | CONST_LONG n =>
    cases h
    obtain ⟨n, rfl⟩ := hfuel' _ rfl
    exact takes_tag ((takes_getLong _).map (f := fun n => EXPR.evaluated (.CONST_LONG n)))
  | CONST_BYTESTR bs =>
    cases h
    obtain ⟨n, rfl⟩ := hfuel' _ rfl
    have hbytes : bs.bs.length < 2 ^ 31 := by
      have := bs.size_le
      unfold DATA_TX_BYTES_MAX at this
      omega
    refine takes_tag ((takes_getBytes hbytes).bind_nil ?_)
    rw [EVALUATED.constBytestr_bs]
    exact .pure _
  | CONST_STRING s =>
    cases h
    obtain ⟨n, rfl⟩ := hfuel' _ rfl
    have hbytes : (utf8Bytes s.s).length < 2 ^ 31 := by
      have := s.size_le
      unfold DATA_TX_BYTES_MAX at this
      omega
    refine takes_tag ((hstr _ hbytes).bind_nil ?_)
    rw [EVALUATED.constString_s]
    exact .pure _
  | CONST_BOOLEAN b =>
    cases h
    rcases b with _ | _
    · obtain ⟨n, rfl⟩ := hfuel' [] rfl
      exact takes_tag (.pure _)
    · obtain ⟨n, rfl⟩ := hfuel' [] rfl
      exact takes_tag (.pure _)
  | CaseObj caseType fields => cases h
  | ARR xs => cases h

set_option linter.unusedSectionVars false in
mutual

/-- **What was written for an expression is read as that expression.** -/
theorem takes_desAux : ∀ (e : EXPR) {bytes : ByteStr} (fuel : ℕ), serAux e = .ok bytes →
    bytes.length < 2 ^ 31 → bytes.length ≤ fuel →
    0 < bytes.length ∧ Takes (desAux str fuel) bytes e
  | .evaluated v, bytes, fuel, h, hsize, hfuel => by
    rw [serAux] at h
    refine ⟨?_, takes_serEvaluated hstr h hsize hfuel⟩
    rcases v with _ | _ | _ | _ | _ | _ <;> cases h <;> exact Nat.succ_pos _
  | .IF cond ifTrue ifFalse, bytes, fuel, h, hsize, hfuel => by
    rw [serAux] at h
    obtain ⟨c, hc, h⟩ := Except.bind_eq_ok.mp h
    obtain ⟨t, ht, h⟩ := Except.bind_eq_ok.mp h
    obtain ⟨f, hf, h⟩ := Except.bind_eq_ok.mp h
    cases h
    simp only [List.length_append, List.length_singleton] at hsize hfuel ⊢
    obtain ⟨n, rfl⟩ : ∃ n, fuel = n + 1 := ⟨fuel - 1, by omega⟩
    have hcond := (takes_desAux cond n hc (by omega) (by omega)).2
    have htrue := (takes_desAux ifTrue n ht (by omega) (by omega)).2
    have hfalse := (takes_desAux ifFalse n hf (by omega) (by omega)).2
    exact ⟨by omega, takes_tag (hcond.bind (htrue.bind (hfalse.bind_nil (.pure _))))⟩
  | .LET_BLOCK name value body, bytes, fuel, h, hsize, hfuel => by
    rw [serAux] at h
    obtain ⟨v, hv, h⟩ := Except.bind_eq_ok.mp h
    obtain ⟨b, hb, h⟩ := Except.bind_eq_ok.mp h
    cases h
    simp only [List.length_append, List.length_singleton, length_writeString] at hsize hfuel ⊢
    obtain ⟨n, rfl⟩ : ∃ n, fuel = n + 1 := ⟨fuel - 1, by omega⟩
    have hname := hstr name (by omega)
    have hvalue := (takes_desAux value n hv (by omega) (by omega)).2
    have hbody := (takes_desAux body n hb (by omega) (by omega)).2
    exact ⟨by omega, takes_tag (hname.bind (hvalue.bind (hbody.bind_nil (.pure _))))⟩
  | .BLOCK dec body, bytes, fuel, h, hsize, hfuel => by
    rw [serAux] at h
    obtain ⟨d, hd, h⟩ := Except.bind_eq_ok.mp h
    obtain ⟨b, hb, h⟩ := Except.bind_eq_ok.mp h
    cases h
    simp only [List.length_append, List.length_singleton] at hsize hfuel ⊢
    obtain ⟨n, rfl⟩ : ∃ n, fuel = n + 1 := ⟨fuel - 1, by omega⟩
    obtain ⟨decType, rest, rfl, hdec⟩ := takes_deserializeDeclaration dec n hd (by omega) (by omega)
    have hbody := (takes_desAux body n hb (by omega) (by omega)).2
    refine ⟨by omega, takes_tag ?_⟩
    rw [List.append_assoc]
    exact (takes_get decType).bind (hdec.bind (hbody.bind_nil (.pure _)))
  | .REF key, bytes, fuel, h, hsize, hfuel => by
    rw [serAux] at h
    cases h
    simp only [List.length_append, List.length_singleton, length_writeString] at hsize hfuel ⊢
    obtain ⟨n, rfl⟩ : ∃ n, fuel = n + 1 := ⟨fuel - 1, by omega⟩
    exact ⟨by omega, takes_tag ((hstr _ (by omega)).map (f := EXPR.REF))⟩
  | .GETTER obj field, bytes, fuel, h, hsize, hfuel => by
    rw [serAux] at h
    obtain ⟨o, ho, h⟩ := Except.bind_eq_ok.mp h
    cases h
    simp only [List.length_append, List.length_singleton, length_writeString] at hsize hfuel ⊢
    obtain ⟨n, rfl⟩ : ∃ n, fuel = n + 1 := ⟨fuel - 1, by omega⟩
    have hobj := (takes_desAux obj n ho (by omega) (by omega)).2
    have hfield := hstr field (by omega)
    exact ⟨by omega, takes_tag (hobj.bind (hfield.bind_nil (.pure _)))⟩
  | .FUNCTION_CALL header args, bytes, fuel, h, hsize, hfuel => by
    rw [serAux] at h
    obtain ⟨written, hwritten, h⟩ := Except.bind_eq_ok.mp h
    cases h
    simp only [List.length_append, List.length_singleton] at hsize hfuel ⊢
    obtain ⟨n, rfl⟩ : ∃ n, fuel = n + 1 := ⟨fuel - 1, by omega⟩
    have hheader : Takes (getFunctionHeader str) (writeFunctionHeader header) header :=
      takes_getFunctionHeader hstr (by omega)
    obtain ⟨hcount, hfill⟩ := takes_fill_desAux args n hwritten (by omega) (by omega)
    have hargs : Takes (getList 1 "array of arguments too big." (desAux str n))
        (Ints.toByteArray args.length ++ written) args :=
      takes_getList Nat.one_pos hfill (by omega) (by omega)
    exact ⟨by omega, takes_tag (hheader.bind (hargs.bind_nil (.pure _)))⟩

theorem takes_deserializeDeclaration : ∀ (d : DECLARATION) {bytes : ByteStr} (fuel : ℕ),
    serializeDeclaration d = .ok bytes → bytes.length < 2 ^ 31 → bytes.length ≤ fuel →
    ∃ decType rest, bytes = [decType] ++ rest ∧
      Takes (deserializeDeclaration str
        (desAux str fuel) decType) rest d
  | .LET name value, bytes, fuel, h, hsize, hfuel => by
    rw [serializeDeclaration] at h
    obtain ⟨v, hv, h⟩ := Except.bind_eq_ok.mp h
    cases h
    simp only [List.length_append, List.length_singleton, length_writeString] at hsize hfuel
    have hvalue := (takes_desAux value fuel hv (by omega) (by omega)).2
    exact ⟨_, _, rfl, takes_LET hstr hvalue (by omega)⟩
  | .FUNC name args body, bytes, fuel, h, hsize, hfuel => by
    rw [serializeDeclaration] at h
    obtain ⟨b, hb, h⟩ := Except.bind_eq_ok.mp h
    cases h
    simp only [List.length_append, List.length_singleton, length_writeString] at hsize hfuel
    have hbody := (takes_desAux body fuel hb (by omega) (by omega)).2
    exact ⟨_, _, rfl, takes_FUNC hstr hbody (by omega) (by omega)⟩

theorem takes_fill_desAux : ∀ (args : List EXPR) {bytes : ByteStr} (fuel : ℕ),
    serArgs args = .ok bytes → bytes.length < 2 ^ 31 → bytes.length ≤ fuel →
    args.length ≤ bytes.length ∧
      Takes (fill (desAux str fuel) args.length) bytes args
  | [], bytes, fuel, h, hsize, hfuel => by
    rw [serArgs] at h
    cases h
    exact ⟨Nat.le_refl 0, .pure []⟩
  | arg :: args, bytes, fuel, h, hsize, hfuel => by
    rw [serArgs] at h
    obtain ⟨first, hfirst, h⟩ := Except.bind_eq_ok.mp h
    obtain ⟨rest, hrest, h⟩ := Except.bind_eq_ok.mp h
    cases h
    rw [List.length_append] at hsize hfuel ⊢
    obtain ⟨hpos, harg⟩ := takes_desAux arg fuel hfirst (by omega) (by omega)
    obtain ⟨hcount, hargs⟩ := takes_fill_desAux args fuel hrest (by omega) (by omega)
    rw [List.length_cons]
    exact ⟨by omega, harg.bind (hargs.bind_nil (.pure _))⟩

end

end

end

/-! ## 5. The expressions that are written -/

/-- A value that a program may hold as a constant. -/
def IsConst : EVALUATED → Prop
  | .CaseObj _ _ => False
  | .ARR _ => False
  | _ => True

mutual

/-- An expression all of whose values are constants. -/
def Handled : EXPR → Prop
  | .evaluated v => IsConst v
  | .GETTER expr _ => Handled expr
  | .LET_BLOCK _ value body => Handled value ∧ Handled body
  | .BLOCK dec body => HandledDeclaration dec ∧ Handled body
  | .IF cond ifTrue ifFalse => Handled cond ∧ Handled ifTrue ∧ Handled ifFalse
  | .REF _ => True
  | .FUNCTION_CALL _ args => HandledArgs args

def HandledDeclaration : DECLARATION → Prop
  | .LET _ value => Handled value
  | .FUNC _ _ body => Handled body

def HandledArgs : List EXPR → Prop
  | [] => True
  | arg :: args => Handled arg ∧ HandledArgs args

end

mutual

theorem serAux_of_handled : ∀ e : EXPR, Handled e → ∃ out, serAux e = .ok out
  | .evaluated v, h => by
    rw [serAux]
    rw [Handled] at h
    rcases v with n | bs | s | b | _ | _
    · exact ⟨_, rfl⟩
    · exact ⟨_, rfl⟩
    · exact ⟨_, rfl⟩
    · exact ⟨_, rfl⟩
    · exact h.elim
    · exact h.elim
  | .GETTER expr field, h => by
    rw [Handled] at h
    obtain ⟨out, hout⟩ := serAux_of_handled expr h
    rw [serAux, hout]
    exact ⟨_, rfl⟩
  | .LET_BLOCK name value body, h => by
    rw [Handled] at h
    obtain ⟨v, hv⟩ := serAux_of_handled value h.1
    obtain ⟨b, hb⟩ := serAux_of_handled body h.2
    rw [serAux, hv, hb]
    exact ⟨_, rfl⟩
  | .BLOCK dec body, h => by
    rw [Handled] at h
    obtain ⟨d, hd⟩ := serializeDeclaration_of_handled dec h.1
    obtain ⟨b, hb⟩ := serAux_of_handled body h.2
    rw [serAux, hd, hb]
    exact ⟨_, rfl⟩
  | .IF cond ifTrue ifFalse, h => by
    rw [Handled] at h
    obtain ⟨c, hc⟩ := serAux_of_handled cond h.1
    obtain ⟨t, ht⟩ := serAux_of_handled ifTrue h.2.1
    obtain ⟨f, hf⟩ := serAux_of_handled ifFalse h.2.2
    rw [serAux, hc, ht, hf]
    exact ⟨_, rfl⟩
  | .REF key, _ => by
    rw [serAux]
    exact ⟨_, rfl⟩
  | .FUNCTION_CALL header args, h => by
    rw [Handled] at h
    obtain ⟨out, hout⟩ := serArgs_of_handled args h
    rw [serAux, hout]
    exact ⟨_, rfl⟩

theorem serializeDeclaration_of_handled : ∀ d : DECLARATION, HandledDeclaration d →
    ∃ out, serializeDeclaration d = .ok out
  | .LET name value, h => by
    rw [HandledDeclaration] at h
    obtain ⟨v, hv⟩ := serAux_of_handled value h
    rw [serializeDeclaration, hv]
    exact ⟨_, rfl⟩
  | .FUNC name args body, h => by
    rw [HandledDeclaration] at h
    obtain ⟨b, hb⟩ := serAux_of_handled body h
    rw [serializeDeclaration, hb]
    exact ⟨_, rfl⟩

theorem serArgs_of_handled : ∀ args : List EXPR, HandledArgs args → ∃ out, serArgs args = .ok out
  | [], _ => by
    rw [serArgs]
    exact ⟨_, rfl⟩
  | arg :: args, h => by
    rw [HandledArgs] at h
    obtain ⟨first, hfirst⟩ := serAux_of_handled arg h.1
    obtain ⟨rest, hrest⟩ := serArgs_of_handled args h.2
    rw [serArgs, hfirst, hrest]
    exact ⟨_, rfl⟩

end

/-- **The round trip.** An expression of constants is written, and if what is written fits
into an array, it is deserialized to the expression and nothing is left; in a longer array
it is read where it stands, and no further. -/
theorem deserialize_serialize {e : EXPR} (h : Handled e) :
    ∃ out, serAux e = .ok out ∧ (out.length < 2 ^ 31 →
      serialize e = .ok out ∧ deserialize out = .ok (e, 0) ∧
      ∀ before after, deserializeBuffer ⟨before ++ (out ++ after), before.length⟩ =
        .ok (e, ⟨before ++ (out ++ after), before.length + out.length⟩)) := by
  obtain ⟨out, hout⟩ := serAux_of_handled e h
  refine ⟨out, hout, fun hsize => ⟨?_, ?_, ?_⟩⟩
  · rw [serialize, hout]
    exact if_pos hsize
  · have hwhole := (takes_desAux takes_getString e (out.length + 1) hout hsize (by omega)).2 [] []
    rw [List.append_nil, List.nil_append, List.length_nil, Nat.zero_add] at hwhole
    rw [deserialize, hwhole]
    have hnothing : (⟨out, out.length⟩ : ByteBuffer).remaining = 0 := Nat.sub_self _
    dsimp only
    rw [hnothing]
    rfl
  · refine takes_getThe fun b hb => ?_
    exact (takes_desAux takes_getString e (b.remaining + 1) hout hsize (by omega)).2

/-- A function that gives back its argument, called with a constant. -/
def identityCall : EXPR :=
  .BLOCK (.FUNC "id" ["x"] (.REF "x")) (.FUNCTION_CALL (.User "id") [.evaluated (.CONST_LONG 1)])

theorem deserialize_serialize_identityCall :
    ∃ out, serAux identityCall = .ok out ∧ (out.length < 2 ^ 31 →
      serialize identityCall = .ok out ∧ deserialize out = .ok (identityCall, 0) ∧
      ∀ before after, deserializeBuffer ⟨before ++ (out ++ after), before.length⟩ =
        .ok (identityCall, ⟨before ++ (out ++ after), before.length + out.length⟩)) :=
  deserialize_serialize ⟨trivial, trivial, trivial⟩

/-! ## 6. Fuel -/

section

variable {str : Reader String} (hstr : Onward str)

include hstr

omit hstr in
theorem onward_getBytes : Onward WavesNode.Serde.getBytes :=
  Onward.getInt.bind fun _ => Onward.getThe.bind fun _ => (Onward.require _ _).bind fun _ =>
    .getByteArray _

omit hstr in
theorem onward_getString : Onward WavesNode.Serde.getString := onward_getBytes.map

theorem onward_getFunctionHeader : Onward (getFunctionHeader str) :=
  Onward.get.bind fun _ => .ite Onward.getShort.map (.ite hstr.map (.throw _))

omit hstr in
theorem onward_getList {α : Type} {part : ℕ} {tooBig : String} {elem : Reader α}
    (h : Onward elem) : Onward (getList part tooBig elem) :=
  Onward.getInt.bind fun _ => Onward.getThe.bind fun _ => .ite (h.fill _) (.throw _)

theorem onward_deserializeDeclaration {aux : Reader EXPR} (h : Onward aux) (decType : Byte) :
    Onward (deserializeDeclaration str aux decType) :=
  .ite (hstr.bind fun _ => h.bind fun _ => .pure _) <|
  .ite (hstr.bind fun _ => (onward_getList hstr).bind fun _ => h.bind fun _ => .pure _) <|
  .throw _

theorem onward_desTag {des : Reader EXPR} (h : Onward des) (tag : Byte) :
    Onward (desTag str des tag) := by
  unfold desTag
  refine .ite Onward.getLong.map <| .ite ?_ <| .ite ?_ <| .ite ?_ <| .ite ?_ <| .ite ?_ <|
    .ite hstr.map <| .ite (.pure _) <| .ite (.pure _) <| .ite ?_ <| .ite ?_ (.throw _)
  · exact onward_getBytes.bind fun _ => (Onward.lift _).map
  · exact hstr.bind fun _ => (Onward.lift _).map
  · exact h.bind fun _ => h.bind fun _ => h.bind fun _ => .pure _
  · exact hstr.bind fun _ => h.bind fun _ => h.bind fun _ => .pure _
  · exact Onward.get.bind fun decType =>
      (onward_deserializeDeclaration hstr h decType).bind fun _ => h.bind fun _ => .pure _
  · exact h.bind fun _ => hstr.bind fun _ => .pure _
  · exact (onward_getFunctionHeader hstr).bind fun _ => (onward_getList h).bind fun _ => .pure _

theorem onward_desAux : ∀ fuel, Onward (desAux str fuel)
  | 0 => .throw _
  | fuel + 1 => Onward.get.bind fun tag => onward_desTag hstr (onward_desAux fuel) tag

omit hstr in
theorem agree_getList {α : Type} {k part : ℕ} {tooBig : String} {elem elem' : Reader α}
    (h : Agree k elem elem') (helem : Onward elem) :
    Agree k (getList part tooBig elem) (getList part tooBig elem') :=
  (Agree.refl _).bind .getInt fun _ => (Agree.refl _).bind .getThe fun _ =>
    .ite (h.fill helem _) (.refl _)

theorem agree_deserializeDeclaration {k : ℕ} {aux aux' : Reader EXPR} (h : Agree k aux aux')
    (haux : Onward aux) (decType : Byte) :
    Agree k (deserializeDeclaration str aux decType) (deserializeDeclaration str aux' decType) := by
  refine .ite ?_ (.ite ?_ (.refl _))
  · exact (Agree.refl _).bind hstr fun _ => h.bind haux fun _ => .refl _
  · exact (Agree.refl _).bind hstr fun _ => (Agree.refl _).bind (onward_getList hstr) fun _ =>
      h.bind haux fun _ => .refl _

theorem agree_desTag {k : ℕ} {des des' : Reader EXPR} (h : Agree k des des') (hdes : Onward des)
    (tag : Byte) : Agree k (desTag str des tag) (desTag str des' tag) := by
  unfold desTag
  refine .ite (.refl _) <| .ite (.refl _) <| .ite (.refl _) <| .ite ?_ <| .ite ?_ <| .ite ?_ <|
    .ite (.refl _) <| .ite (.refl _) <| .ite (.refl _) <| .ite ?_ <| .ite ?_ (.refl _)
  · exact h.bind hdes fun _ => h.bind hdes fun _ => h.bind hdes fun _ => .refl _
  · exact (Agree.refl _).bind hstr fun _ => h.bind hdes fun _ => h.bind hdes fun _ => .refl _
  · exact (Agree.refl _).bind .get fun decType =>
      (agree_deserializeDeclaration hstr h hdes decType).bind
        (onward_deserializeDeclaration hstr hdes decType) fun _ => h.bind hdes fun _ => .refl _
  · exact h.bind hdes fun _ => .refl _
  · exact (Agree.refl _).bind (onward_getFunctionHeader hstr) fun _ =>
      (agree_getList h hdes).bind (onward_getList hdes) fun _ => .refl _

/-- **The reader stops.** With more fuel than bytes remain it never runs out: any two such
amounts give the same answer. -/
theorem desAux_fuel : ∀ (n m : ℕ) (b : ByteBuffer), b.remaining < n → b.remaining < m →
    desAux str n b = desAux str m b
  | 0, _, b, hn, _ => absurd hn (Nat.not_lt_zero _)
  | _ + 1, 0, b, _, hm => absurd hm (Nat.not_lt_zero _)
  | n + 1, m + 1, b, hn, hm => by
    change (ByteBuffer.get b >>= fun p => desTag str (desAux str n) p.1 p.2) =
      (ByteBuffer.get b >>= fun p => desTag str (desAux str m) p.1 p.2)
    rcases hget : ByteBuffer.get b with e | ⟨tag, b'⟩
    · rfl
    · -- the tag is a byte, so that less remains than fuel
      obtain ⟨hlt, htag⟩ := get_eq_ok.mp hget
      obtain ⟨rfl, rfl⟩ := Prod.mk.inj htag
      have hagree : Agree (b.advance 1).remaining (desAux str n) (desAux str m) := by
        intro b' hb'
        rw [remaining, remaining, advance_array, advance_position] at hb'
        rw [remaining] at hn hm
        rw [← remaining] at hb'
        exact desAux_fuel n m b' (by omega) (by omega)
      exact agree_desTag hstr hagree (onward_desAux hstr n) _ _ (Nat.le_refl _)

end

end Serde

end Lang

end WavesNode
