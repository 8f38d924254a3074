/-
Contracts as bytes.

A contract is its metadata, its declarations, its callable functions and perhaps a verifier.
The decoder is a chain of `Either`s, and what fails inside `tryEi`, or inside a `Coeval` that
is attempted, is a `Left`. Some reads stand outside of both: the count of a list, the kind of
a declaration, and its name, which is read before there is a `Coeval`. What fails there is
thrown.
-/
import WavesNode.Serde

set_option autoImplicit false

namespace WavesNode

namespace Lang

open ByteBuffer

/-- `DAppMeta`, a protobuf message, with its parser and its serializer. -/
class DAppMetaSerializer where
  DAppMeta : Type
  parseFrom : ByteStr → Except String DAppMeta
  toByteArray : DAppMeta → ByteStr

/-! ## 1. Contracts -/

structure FUNC where
  name : String
  args : List String
  body : EXPR

/-- A function with the name its annotation binds: `CallableFunction`, `VerifierFunction`. -/
structure AnnotatedFunction where
  invocationArgName : String
  u : FUNC

structure DApp [DAppMetaSerializer] where
  meta_ : DAppMetaSerializer.DAppMeta
  decs : List DECLARATION
  callableFuncs : List AnnotatedFunction
  verifierFuncOpt : Option AnnotatedFunction

def FUNC.declaration (f : FUNC) : DECLARATION := .FUNC f.name f.args f.body

namespace ContractLimits

def MaxContractMetaSizeInBytes : ℕ := 1024
def MaxContractSizeInBytes : ℕ := 32 * 1024
def MaxAnnotatedFunctionNameInBytes : ℕ := 255

end ContractLimits

/-! ## 2. What fails -/

/-- A `Left`, or an exception. -/
inductive Failure where
  | left (message : String)
  | thrown (message : String)
  deriving DecidableEq

/-- A method that reads a buffer and returns an `Either`. -/
abbrev EitherReader (α : Type) := StateT ByteBuffer (Except Failure) α

section

variable {α β : Type}

/-- `tryEi`; also what is attempted. -/
def tryEi (r : Reader α) : EitherReader α := fun b => (r b).mapError .left

/-- A read that nothing guards. -/
def unguarded (r : Reader α) : EitherReader α := fun b => (r b).mapError .thrown

/-- `traverse` over as many elements as were counted. -/
def EitherReader.fill (df : EitherReader α) : ℕ → EitherReader (List α)
  | 0 => pure []
  | n + 1 => do
    let a ← df
    let rest ← EitherReader.fill df n
    pure (a :: rest)

end

namespace ContractSerDe

variable [DAppMetaSerializer]

/-! ## 3. Writing -/

omit [DAppMetaSerializer] in
def checkMetaSize (metaSize : ℤ) : Except String Unit :=
  if metaSize ≤ ContractLimits.MaxContractMetaSizeInBytes then .ok ()
  else .error s!"Script meta size in bytes must be not greater than {ContractLimits.MaxContractMetaSizeInBytes}"

omit [DAppMetaSerializer] in
def serializeAnnotatedFunction (f : AnnotatedFunction) : Except String ByteStr := do
  let declaration ← Serde.serializeDeclaration f.u.declaration
  .ok (Serde.writeString f.invocationArgName ++ declaration)

omit [DAppMetaSerializer] in
/-- A list after its count. -/
def serializeList {α : Type} (write : α → Except String ByteStr) (xs : List α) :
    Except String ByteStr := do
  let written ← xs.mapM write
  .ok (Ints.toByteArray xs.length ++ written.flatten)

/-- `serialize`, with version zero. -/
def serialize (c : DApp) : Except String ByteStr := do
  let metaBytes := DAppMetaSerializer.toByteArray c.meta_
  checkMetaSize metaBytes.length
  let decs ← serializeList Serde.serializeDeclaration c.decs
  let callableFuncs ← serializeList serializeAnnotatedFunction c.callableFuncs
  let verifier ← serializeList serializeAnnotatedFunction c.verifierFuncOpt.toList
  .ok (Ints.toByteArray 0 ++ (Serde.writeBytes metaBytes ++ (decs ++ (callableFuncs ++ verifier))))

/-! ## 4. Reading -/

def deserializeMeta : EitherReader DAppMetaSerializer.DAppMeta := do
  let size ← tryEi getInt
  StateT.lift ((checkMetaSize size).mapError .left)
  tryEi do
    let arr ← getByteArray size
    StateT.lift (DAppMetaSerializer.parseFrom arr)

omit [DAppMetaSerializer] in
/-- `deserializeDeclaration`: the kind and the name come before there is anything to attempt. -/
def deserializeDeclaration : EitherReader DECLARATION := do
  let decType ← unguarded ByteBuffer.get
  if decType = Serde.DEC_LET then do
    let name ← unguarded WavesNode.Serde.getString
    tryEi do
      let body ← Serde.deserializeBuffer
      pure (.LET name body)
  else if decType = Serde.DEC_FUNC then do
    let name ← unguarded WavesNode.Serde.getString
    tryEi do
      let args ← Serde.getList 2 "array of arguments names too big." WavesNode.Serde.getString
      let body ← Serde.deserializeBuffer
      pure (.FUNC name args body)
  else throw (.thrown s!"MatchError: {decType}")

omit [DAppMetaSerializer] in
/-- `deserializeDeclaration(bb).map(_.asInstanceOf[FUNC])`. -/
def deserializeFunction : EitherReader FUNC := do
  match ← deserializeDeclaration with
  | .FUNC name args body => pure ⟨name, args, body⟩
  | .LET _ _ => throw (.thrown "ClassCastException")

omit [DAppMetaSerializer] in
def deserializeCallableFunction : EitherReader AnnotatedFunction := do
  let ca ← tryEi WavesNode.Serde.getString
  let cf ← deserializeFunction
  if (utf8Bytes cf.name).length ≤ ContractLimits.MaxAnnotatedFunctionNameInBytes then
    pure ⟨ca, cf⟩
  else
    throw (.left s!"Callable function name ({cf.name}) longer than limit {ContractLimits.MaxAnnotatedFunctionNameInBytes}")

omit [DAppMetaSerializer] in
def deserializeVerifierFunction : EitherReader AnnotatedFunction := do
  let a ← tryEi WavesNode.Serde.getString
  let f ← deserializeFunction
  pure ⟨a, f⟩

omit [DAppMetaSerializer] in
def deserializeList {α : Type} (df : EitherReader α) : EitherReader (List α) := do
  let len ← unguarded getInt
  let bb ← getThe ByteBuffer
  if len ≤ bb.remaining ∧ 0 ≤ len then EitherReader.fill df len.toNat
  else throw (.left s!"At position {bb.position} array of arguments too big.")

omit [DAppMetaSerializer] in
def deserializeOption {α : Type} (df : EitherReader α) : EitherReader (Option α) := do
  let len ← tryEi getInt
  if len > 0 then some <$> df else pure none

/-- The chain of `deserialize`; the version is not looked at. -/
def deserializeDApp : EitherReader DApp := do
  let _ ← tryEi getInt
  let meta_ ← deserializeMeta
  let decs ← deserializeList deserializeDeclaration
  let callableFuncs ← deserializeList deserializeCallableFunction
  let verifierFuncOpt ← deserializeOption deserializeVerifierFunction
  pure ⟨meta_, decs, callableFuncs, verifierFuncOpt⟩

/-- `deserialize`. -/
def deserialize (arr : ByteStr) : Except Failure DApp := (deserializeDApp ⟨arr, 0⟩).map Prod.fst

/-! ## 5. What is thrown -/

end ContractSerDe

section

variable {α β : Type} {b : ByteBuffer}

/-- An exception, not a `Left`. -/
def Throws (x : Except Failure α) : Prop := ∃ m, x = .error (.thrown m)

theorem EitherReader.bind_eq_ok {x : EitherReader α} {f : α → EitherReader β}
    {r : β × ByteBuffer} :
    (x >>= f) b = .ok r ↔ ∃ a b', x b = .ok (a, b') ∧ f a b' = .ok r := by
  change (x b >>= fun p => f p.1 p.2) = .ok r ↔ _
  rw [Except.bind_eq_ok]
  constructor
  · rintro ⟨⟨a, b'⟩, ha, h⟩
    exact ⟨a, b', ha, h⟩
  · rintro ⟨a, b', ha, h⟩
    exact ⟨(a, b'), ha, h⟩

theorem throws_bind {x : EitherReader α} {f : α → EitherReader β} :
    Throws ((x >>= f) b) ↔ Throws (x b) ∨ ∃ a b', x b = .ok (a, b') ∧ Throws (f a b') := by
  change Throws (x b >>= fun p => f p.1 p.2) ↔ _
  rcases hx : x b with e | ⟨a, b'⟩
  · constructor
    · rintro ⟨m, hm⟩
      cases hm
      exact .inl ⟨m, rfl⟩
    · rintro (⟨m, hm⟩ | ⟨a, b', ha, -⟩)
      · cases hm
        exact ⟨m, rfl⟩
      · cases ha
  · constructor
    · intro h
      exact .inr ⟨a, b', rfl, h⟩
    · rintro (⟨m, hm⟩ | ⟨a', b'', ha, h⟩)
      · cases hm
      · cases ha
        exact h

/-- Nothing is thrown if the first part throws nothing, nor the second after it. -/
theorem not_throws_bind {x : EitherReader α} {f : α → EitherReader β} :
    ¬Throws ((x >>= f) b) ↔
      ¬Throws (x b) ∧ ∀ a b', x b = .ok (a, b') → ¬Throws (f a b') := by
  rw [throws_bind, not_or]
  refine and_congr Iff.rfl ⟨fun h a b' ha hf => h ⟨a, b', ha, hf⟩, ?_⟩
  rintro h ⟨a, b', ha, hf⟩
  exact h a b' ha hf

theorem not_throws_pure {a : α} : ¬Throws ((pure a : EitherReader α) b) := by
  rintro ⟨m, hm⟩
  cases hm

theorem not_throws_left {message : String} :
    ¬Throws ((throw (.left message) : EitherReader α) b) := by
  rintro ⟨m, hm⟩
  cases hm

theorem throws_thrown {message : String} :
    Throws ((throw (.thrown message) : EitherReader α) b) :=
  ⟨message, rfl⟩

/-- What is tried fails with a `Left`. -/
theorem not_throws_tryEi {r : Reader α} : ¬Throws (tryEi r b) := by
  rintro ⟨m, hm⟩
  rw [tryEi] at hm
  rcases hr : r b with e | p
  · rw [hr] at hm
    cases hm
  · rw [hr] at hm
    cases hm

theorem tryEi_eq_ok {r : Reader α} {p : α × ByteBuffer} : tryEi r b = .ok p ↔ r b = .ok p := by
  rw [tryEi]
  rcases r b with e | p'
  · exact iff_of_false (fun h => by cases h) (fun h => by cases h)
  · constructor
    · rintro h
      cases h
      rfl
    · rintro h
      cases h
      rfl

theorem unguarded_eq_ok {r : Reader α} {p : α × ByteBuffer} :
    unguarded r b = .ok p ↔ r b = .ok p := by
  rw [unguarded]
  rcases r b with e | p'
  · exact iff_of_false (fun h => by cases h) (fun h => by cases h)
  · constructor
    · rintro h
      cases h
      rfl
    · rintro h
      cases h
      rfl

/-- What is thrown is thrown whatever becomes of what was read. -/
theorem throws_exceptMap {f : α → β} {x : Except Failure α} :
    Throws (x.map f) ↔ Throws x := by
  rcases x with e | a
  · constructor
    · rintro ⟨m, hm⟩
      cases hm
      exact ⟨m, rfl⟩
    · rintro ⟨m, hm⟩
      cases hm
      exact ⟨m, rfl⟩
  · exact iff_of_false (fun ⟨m, hm⟩ => by cases hm) (fun ⟨m, hm⟩ => by cases hm)

/-- What nothing guards throws exactly when it cannot be read. -/
theorem throws_unguarded {r : Reader α} : Throws (unguarded r b) ↔ ∀ p, r b ≠ .ok p := by
  rw [unguarded]
  rcases hr : r b with e | p
  · constructor
    · intro _ p hp
      cases hp
    · intro _
      exact ⟨e, rfl⟩
  · constructor
    · rintro ⟨m, hm⟩
      cases hm
    · intro h
      exact absurd rfl (h p)

/-- Every element that is come to satisfies a condition where it stands. -/
def Each (df : EitherReader α) (C : ByteBuffer → Prop) : ℕ → ByteBuffer → Prop
  | 0, _ => True
  | n + 1, b => C b ∧ ∀ a b', df b = .ok (a, b') → Each df C n b'

theorem throws_fill {df : EitherReader α} {C : ByteBuffer → Prop}
    (hdf : ∀ b, Throws (df b) ↔ ¬C b) :
    ∀ (n : ℕ) (b : ByteBuffer), Throws (EitherReader.fill df n b) ↔ ¬Each df C n b
  | 0, b => iff_of_false not_throws_pure (not_not_intro trivial)
  | n + 1, b => by
    rw [EitherReader.fill, throws_bind, Each, hdf, not_and_or]
    refine or_congr Iff.rfl ?_
    rw [not_forall]
    refine exists_congr fun a => ?_
    rw [not_forall]
    refine exists_congr fun b' => ?_
    rw [Classical.not_imp, throws_bind]
    refine and_congr Iff.rfl ?_
    rw [← throws_fill hdf n b']
    constructor
    · rintro (h | ⟨_, _, -, h⟩)
      · exact h
      · exact absurd h not_throws_pure
    · exact .inl

end

namespace ContractSerDe

/-! ## 6. What has to be there -/

section

variable {α : Type}

/-- A string can be read: the length stands here, and as many bytes follow. -/
def StringAt (b : ByteBuffer) : Prop :=
  b.position + 4 ≤ b.array.length ∧ 0 ≤ intAt b.array b.position ∧
    b.position + 4 + (intAt b.array b.position).toNat ≤ b.array.length

/-- The buffer after a string. -/
def afterString (b : ByteBuffer) : ByteBuffer :=
  b.advance (4 + (intAt b.array b.position).toNat)

/-- The kind of a declaration and its name can be read, and the kind is known. -/
def DeclarationAt (b : ByteBuffer) : Prop :=
  b.position < b.array.length ∧
    (byteAt b.array b.position = Serde.DEC_LET ∨ byteAt b.array b.position = Serde.DEC_FUNC) ∧
    StringAt (b.advance 1)

/-- A function, or what is no declaration at all: the value of a constant does not decode. -/
def FunctionAt (b : ByteBuffer) : Prop :=
  DeclarationAt b ∧ (byteAt b.array b.position = Serde.DEC_LET →
    ∀ p, Serde.deserializeBuffer (afterString (b.advance 1)) ≠ .ok p)

/-- A function after its annotation, if the annotation can be read. -/
def AnnotatedAt (b : ByteBuffer) : Prop := StringAt b → FunctionAt (afterString b)

/-- The count of a list can be read, and if the count is admitted every element that is come
to satisfies a condition. -/
def ListAt (df : EitherReader α) (C : ByteBuffer → Prop) (b : ByteBuffer) : Prop :=
  b.position + 4 ≤ b.array.length ∧
    (intAt b.array b.position ≤ (b.advance 4).remaining ∧ 0 ≤ intAt b.array b.position →
      Each df C (intAt b.array b.position).toNat (b.advance 4))

/-- A verifier, if the count can be read and says that there is one. -/
def VerifierAt (b : ByteBuffer) : Prop :=
  b.position + 4 ≤ b.array.length → 0 < intAt b.array b.position → AnnotatedAt (b.advance 4)

theorem getString_eq_ok {b : ByteBuffer} {p : String × ByteBuffer} :
    WavesNode.Serde.getString b = .ok p ↔ StringAt b ∧
      p = (decodeUtf8 (slice b.array (b.position + 4) (intAt b.array b.position).toNat),
        afterString b) := by
  rw [WavesNode.Serde.getString, map_eq_ok]
  constructor
  · rintro ⟨bytes, h, hdecode⟩
    obtain ⟨len, b₁, hlen, h⟩ := bind_eq_ok.mp h
    obtain ⟨hsize, hlen⟩ := getInt_eq_ok.mp hlen
    obtain ⟨rfl, rfl⟩ := Prod.mk.inj hlen
    obtain ⟨buf, b₂, hbuf, h⟩ := bind_eq_ok.mp h
    cases hbuf
    obtain ⟨u, b₃, hrequire, h⟩ := bind_eq_ok.mp h
    obtain ⟨-, hrequire⟩ := require_eq_ok.mp hrequire
    obtain ⟨-, rfl⟩ := Prod.mk.inj hrequire
    obtain ⟨hnonneg, h⟩ := getByteArray_eq_ok.mp h
    obtain ⟨hbytes, h⟩ := getArray_eq_ok.mp h
    obtain ⟨rfl, hafter⟩ := Prod.mk.inj h
    refine ⟨⟨hsize, hnonneg, hbytes⟩, Prod.ext hdecode.symm ?_⟩
    rw [hafter, advance_advance]
    rfl
  · rintro ⟨⟨hsize, hnonneg, hbytes⟩, rfl⟩
    refine ⟨_, ?_, rfl⟩
    refine bind_eq_ok.mpr ⟨_, _, getInt_eq_ok.mpr ⟨hsize, rfl⟩, ?_⟩
    refine bind_eq_ok.mpr ⟨_, _, rfl, ?_⟩
    have hcheck : (decide (0 ≤ intAt b.array b.position) &&
        decide (intAt b.array b.position ≤ (b.advance 4).array.length)) = true := by
      rw [Bool.and_eq_true, decide_eq_true_eq, decide_eq_true_eq, advance_array]
      omega
    refine bind_eq_ok.mpr ⟨_, _, require_eq_ok.mpr ⟨hcheck, rfl⟩, ?_⟩
    refine getByteArray_eq_ok.mpr ⟨hnonneg, getArray_eq_ok.mpr ⟨hbytes, ?_⟩⟩
    refine Prod.ext rfl ?_
    rw [advance_advance]
    rfl

/-- What nothing guards throws exactly when what it reads is not there. -/
theorem throws_getString {b : ByteBuffer} :
    Throws (unguarded WavesNode.Serde.getString b) ↔ ¬StringAt b := by
  rw [throws_unguarded]
  constructor
  · intro h hstring
    exact h _ (getString_eq_ok.mpr ⟨hstring, rfl⟩)
  · intro h p hp
    exact h (getString_eq_ok.mp hp).1

end

/-! ## 7. Declarations and functions -/

theorem throws_deserializeDeclaration {b : ByteBuffer} :
    Throws (deserializeDeclaration b) ↔ ¬DeclarationAt b := by
  rw [deserializeDeclaration, throws_bind, throws_unguarded]
  by_cases hget : b.position < b.array.length
  · have hok := get_eq_ok.mpr ⟨hget, rfl⟩
    constructor
    · rintro (h | ⟨decType, b', hdec, h⟩)
      · exact absurd hok (h _)
      · obtain ⟨-, hdec⟩ := get_eq_ok.mp (unguarded_eq_ok.mp hdec)
        obtain ⟨rfl, rfl⟩ := Prod.mk.inj hdec
        rintro ⟨-, htype, hname⟩
        -- past the name there is nothing left that is not attempted
        by_cases hlet : byteAt b.array b.position = Serde.DEC_LET
        · rw [if_pos hlet, throws_bind] at h
          rcases h with h | ⟨name, b'', -, h⟩
          · exact throws_getString.mp h hname
          · exact not_throws_tryEi h
        · have hfunc := htype.resolve_left hlet
          rw [if_neg hlet, if_pos hfunc, throws_bind] at h
          rcases h with h | ⟨name, b'', -, h⟩
          · exact throws_getString.mp h hname
          · exact not_throws_tryEi h
    · intro h
      refine .inr ⟨_, _, unguarded_eq_ok.mpr hok, ?_⟩
      by_cases hlet : byteAt b.array b.position = Serde.DEC_LET
      · rw [if_pos hlet, throws_bind]
        exact .inl (throws_getString.mpr fun hname => h ⟨hget, .inl hlet, hname⟩)
      · by_cases hfunc : byteAt b.array b.position = Serde.DEC_FUNC
        · rw [if_neg hlet, if_pos hfunc, throws_bind]
          exact .inl (throws_getString.mpr fun hname => h ⟨hget, .inr hfunc, hname⟩)
        · rw [if_neg hlet, if_neg hfunc]
          exact throws_thrown
  · refine iff_of_true (.inl fun p hp => ?_) fun h => hget h.1
    exact hget (get_eq_ok.mp hp).1

/-- What is declared is a constant or a function as the kind says, and for a constant the
value stands after the name. -/
theorem deserializeDeclaration_eq_ok {b b' : ByteBuffer} {d : DECLARATION}
    (h : deserializeDeclaration b = .ok (d, b')) :
    (byteAt b.array b.position = Serde.DEC_LET ∧ ∃ name body, d = .LET name body ∧
      Serde.deserializeBuffer (afterString (b.advance 1)) = .ok (body, b')) ∨
    (byteAt b.array b.position = Serde.DEC_FUNC ∧ ∃ name args body, d = .FUNC name args body) := by
  rw [deserializeDeclaration] at h
  obtain ⟨decType, b₁, hdec, h⟩ := EitherReader.bind_eq_ok.mp h
  obtain ⟨-, hdec⟩ := get_eq_ok.mp (unguarded_eq_ok.mp hdec)
  obtain ⟨rfl, rfl⟩ := Prod.mk.inj hdec
  by_cases hlet : byteAt b.array b.position = Serde.DEC_LET
  · rw [if_pos hlet] at h
    obtain ⟨name, b₂, hname, h⟩ := EitherReader.bind_eq_ok.mp h
    obtain ⟨-, hname⟩ := getString_eq_ok.mp (unguarded_eq_ok.mp hname)
    obtain ⟨rfl, rfl⟩ := Prod.mk.inj hname
    obtain ⟨body, b₃, hbody, h⟩ := ByteBuffer.bind_eq_ok.mp (tryEi_eq_ok.mp h)
    obtain ⟨rfl, rfl⟩ := Prod.mk.inj (pure_eq_ok.mp h)
    exact .inl ⟨hlet, _, body, rfl, hbody⟩
  · rw [if_neg hlet] at h
    by_cases hfunc : byteAt b.array b.position = Serde.DEC_FUNC
    · rw [if_pos hfunc] at h
      obtain ⟨name, b₂, -, h⟩ := EitherReader.bind_eq_ok.mp h
      obtain ⟨args, b₃, -, h⟩ := ByteBuffer.bind_eq_ok.mp (tryEi_eq_ok.mp h)
      obtain ⟨body, b₄, -, h⟩ := ByteBuffer.bind_eq_ok.mp h
      obtain ⟨rfl, -⟩ := Prod.mk.inj (pure_eq_ok.mp h)
      exact .inr ⟨hfunc, name, args, body, rfl⟩
    · rw [if_neg hfunc] at h
      cases h

/-- A constant that is declared is read. -/
theorem deserializeDeclaration_let {b : ByteBuffer} (h : DeclarationAt b)
    (hlet : byteAt b.array b.position = Serde.DEC_LET) {p : EXPR × ByteBuffer}
    (hp : Serde.deserializeBuffer (afterString (b.advance 1)) = .ok p) :
    ∃ name, deserializeDeclaration b = .ok (.LET name p.1, p.2) := by
  have hget := unguarded_eq_ok.mpr (get_eq_ok.mpr ⟨h.1, rfl⟩)
  have hname := unguarded_eq_ok.mpr (getString_eq_ok.mpr ⟨h.2.2, rfl⟩)
  refine ⟨decodeUtf8 (slice b.array (b.position + 1 + 4)
    (intAt b.array (b.position + 1)).toNat), ?_⟩
  rw [deserializeDeclaration]
  refine EitherReader.bind_eq_ok.mpr ⟨_, _, hget, ?_⟩
  rw [if_pos hlet]
  refine EitherReader.bind_eq_ok.mpr ⟨_, _, hname, ?_⟩
  exact tryEi_eq_ok.mpr (ByteBuffer.bind_eq_ok.mpr ⟨_, _, hp, pure_eq_ok.mpr rfl⟩)

theorem throws_deserializeFunction {b : ByteBuffer} :
    Throws (deserializeFunction b) ↔ ¬FunctionAt b := by
  rw [deserializeFunction, throws_bind, throws_deserializeDeclaration]
  by_cases hdeclaration : DeclarationAt b
  · constructor
    · rintro (h | ⟨d, b', hd, h⟩) ⟨-, hconst⟩
      · exact h hdeclaration
      · -- only a constant is cast in vain
        rcases deserializeDeclaration_eq_ok hd with
          ⟨hlet, name, body, rfl, hbody⟩ | ⟨-, name, args, body, rfl⟩
        · exact hconst hlet _ hbody
        · exact not_throws_pure h
    · intro h
      have hex : ∃ p, byteAt b.array b.position = Serde.DEC_LET ∧
          Serde.deserializeBuffer (afterString (b.advance 1)) = .ok p := by
        by_contra hnone
        exact h ⟨hdeclaration, fun hlet p hp => hnone ⟨p, hlet, hp⟩⟩
      obtain ⟨p, hlet, hp⟩ := hex
      obtain ⟨name, hd⟩ := deserializeDeclaration_let hdeclaration hlet hp
      exact .inr ⟨_, _, hd, throws_thrown⟩
  · exact iff_of_true (.inl hdeclaration) fun h => hdeclaration h.1

/-- A reader that is attempted and then one that is not. -/
theorem throws_tryEi_bind {α β : Type} {r : Reader α} {f : α → EitherReader β} {b : ByteBuffer} :
    Throws ((tryEi r >>= f) b) ↔ ∃ a b', r b = .ok (a, b') ∧ Throws (f a b') := by
  rw [throws_bind]
  constructor
  · rintro (h | ⟨a, b', ha, h⟩)
    · exact absurd h not_throws_tryEi
    · exact ⟨a, b', tryEi_eq_ok.mp ha, h⟩
  · rintro ⟨a, b', ha, h⟩
    exact .inr ⟨a, b', tryEi_eq_ok.mpr ha, h⟩

/-- After the annotation, the function decides. -/
theorem throws_annotated {α : Type} {f : String → EitherReader α} {b : ByteBuffer}
    (hf : ∀ name, Throws (f name (afterString b)) ↔ ¬FunctionAt (afterString b)) :
    Throws ((tryEi WavesNode.Serde.getString >>= f) b) ↔ ¬AnnotatedAt b := by
  rw [throws_tryEi_bind, AnnotatedAt, Classical.not_imp]
  constructor
  · rintro ⟨name, b', hname, h⟩
    obtain ⟨hstring, hname⟩ := getString_eq_ok.mp hname
    obtain ⟨rfl, rfl⟩ := Prod.mk.inj hname
    exact ⟨hstring, (hf _).mp h⟩
  · rintro ⟨hstring, h⟩
    exact ⟨_, _, getString_eq_ok.mpr ⟨hstring, rfl⟩, (hf _).mpr h⟩

theorem throws_deserializeCallableFunction (b : ByteBuffer) :
    Throws (deserializeCallableFunction b) ↔ ¬AnnotatedAt b := by
  refine throws_annotated fun name => ?_
  rw [throws_bind, throws_deserializeFunction]
  constructor
  · rintro (h | ⟨cf, b', -, h⟩)
    · exact h
    · -- a name that is too long is a `Left`
      split_ifs at h
      · exact absurd h not_throws_pure
      · exact absurd h not_throws_left
  · exact .inl

theorem throws_deserializeVerifierFunction (b : ByteBuffer) :
    Throws (deserializeVerifierFunction b) ↔ ¬AnnotatedAt b := by
  refine throws_annotated fun name => ?_
  rw [throws_bind, throws_deserializeFunction]
  constructor
  · rintro (h | ⟨f, b', -, h⟩)
    · exact h
    · exact absurd h not_throws_pure
  · exact .inl

/-! ## 8. Lists and the whole -/

theorem throws_deserializeList {α : Type} {df : EitherReader α} {C : ByteBuffer → Prop}
    (hdf : ∀ b, Throws (df b) ↔ ¬C b) {b : ByteBuffer} :
    Throws (deserializeList df b) ↔ ¬ListAt df C b := by
  rw [deserializeList, throws_bind, throws_unguarded]
  by_cases hint : b.position + 4 ≤ b.array.length
  · have hok := getInt_eq_ok.mpr ⟨hint, rfl⟩
    constructor
    · rintro (h | ⟨len, b', hlen, h⟩)
      · exact absurd hok (h _)
      · obtain ⟨-, hlen⟩ := getInt_eq_ok.mp (unguarded_eq_ok.mp hlen)
        obtain ⟨rfl, rfl⟩ := Prod.mk.inj hlen
        rcases throws_bind.mp h with h | ⟨bb, b'', hbb, h⟩
        · obtain ⟨m, hm⟩ := h
          cases hm
        · cases hbb
          rintro ⟨-, heach⟩
          by_cases hcount : intAt b.array b.position ≤ (b.advance 4).remaining ∧
              0 ≤ intAt b.array b.position
          · rw [if_pos hcount] at h
            exact (throws_fill hdf _ _).mp h (heach hcount)
          · rw [if_neg hcount] at h
            exact not_throws_left h
    · intro h
      refine .inr ⟨_, _, unguarded_eq_ok.mpr hok, throws_bind.mpr (.inr ⟨_, _, rfl, ?_⟩)⟩
      by_cases hcount : intAt b.array b.position ≤ (b.advance 4).remaining ∧
          0 ≤ intAt b.array b.position
      · rw [if_pos hcount]
        exact (throws_fill hdf _ _).mpr fun heach => h ⟨hint, fun _ => heach⟩
      · exact absurd ⟨hint, fun hcount' => absurd hcount' hcount⟩ h
  · refine iff_of_true (.inl fun p hp => ?_) fun h => hint h.1
    exact hint (getInt_eq_ok.mp hp).1

theorem throws_map {α β : Type} {f : α → β} {x : EitherReader α} {b : ByteBuffer} :
    Throws ((f <$> x) b) ↔ Throws (x b) := by
  rw [map_eq_pure_bind, throws_bind]
  constructor
  · rintro (h | ⟨_, _, -, h⟩)
    · exact h
    · exact absurd h not_throws_pure
  · exact .inl

theorem throws_verifier {b : ByteBuffer} :
    Throws (deserializeOption deserializeVerifierFunction b) ↔ ¬VerifierAt b := by
  rw [deserializeOption, throws_tryEi_bind, VerifierAt, Classical.not_imp]
  constructor
  · rintro ⟨len, b', hlen, h⟩
    obtain ⟨hint, hlen⟩ := getInt_eq_ok.mp hlen
    obtain ⟨rfl, rfl⟩ := Prod.mk.inj hlen
    by_cases hpos : intAt b.array b.position > 0
    · rw [if_pos hpos, throws_map, throws_deserializeVerifierFunction] at h
      exact ⟨hint, fun hsome => h (hsome hpos)⟩
    · rw [if_neg hpos] at h
      exact absurd h not_throws_pure
  · rintro ⟨hint, h⟩
    rw [Classical.not_imp] at h
    refine ⟨_, _, getInt_eq_ok.mpr ⟨hint, rfl⟩, ?_⟩
    rw [if_pos h.1, throws_map, throws_deserializeVerifierFunction]
    exact h.2

section

variable [DAppMetaSerializer]

theorem not_throws_deserializeMeta {b : ByteBuffer} : ¬Throws (deserializeMeta b) := by
  rw [deserializeMeta, throws_tryEi_bind]
  rintro ⟨size, b', -, h⟩
  rcases throws_bind.mp h with h | ⟨u, b'', -, h⟩
  · -- a size that is too large is a `Left`
    obtain ⟨m, hm⟩ := h
    rw [checkMetaSize] at hm
    split_ifs at hm
    · cases hm
    · cases hm
  · exact not_throws_tryEi h

/-- The bytes of a contract as far as what nothing guards reads them: the counts of both
lists, every declaration that is come to, every function that is come to. -/
def ContractReadable (arr : ByteStr) : Prop :=
  4 ≤ arr.length → ∀ m b, deserializeMeta ⟨arr, 4⟩ = .ok (m, b) →
    ListAt deserializeDeclaration DeclarationAt b ∧
      ∀ decs b', deserializeList deserializeDeclaration b = .ok (decs, b') →
        ListAt deserializeCallableFunction AnnotatedAt b' ∧
          ∀ callableFuncs b'', deserializeList deserializeCallableFunction b' =
            .ok (callableFuncs, b'') → VerifierAt b''

theorem not_throws_deserializeDApp {arr : ByteStr} :
    ¬Throws (deserializeDApp ⟨arr, 0⟩) ↔ ContractReadable arr := by
  have hlist : ∀ b, ¬Throws (deserializeList deserializeDeclaration b) ↔
      ListAt deserializeDeclaration DeclarationAt b := fun b =>
    not_iff_comm.mp (throws_deserializeList fun _ => throws_deserializeDeclaration).symm
  have hfuncs : ∀ b, ¬Throws (deserializeList deserializeCallableFunction b) ↔
      ListAt deserializeCallableFunction AnnotatedAt b := fun b =>
    not_iff_comm.mp (throws_deserializeList throws_deserializeCallableFunction).symm
  have hverifier : ∀ b, ¬Throws (deserializeOption deserializeVerifierFunction b) ↔
      VerifierAt b := fun b => not_iff_comm.mp throws_verifier.symm
  rw [deserializeDApp]
  constructor
  · intro h hsize m b hmeta
    have hint : tryEi getInt ⟨arr, 0⟩ = .ok (intAt arr 0, ⟨arr, 4⟩) :=
      tryEi_eq_ok.mpr (getInt_eq_ok.mpr ⟨by rwa [Nat.zero_add], rfl⟩)
    have h := (not_throws_bind.mp h).2 _ _ hint
    have h := (not_throws_bind.mp h).2 m b hmeta
    obtain ⟨hdecs, h⟩ := not_throws_bind.mp h
    refine ⟨(hlist b).mp hdecs, fun decs b' hok => ?_⟩
    obtain ⟨hcallable, h⟩ := not_throws_bind.mp (h decs b' hok)
    refine ⟨(hfuncs b').mp hcallable, fun callableFuncs b'' hok => ?_⟩
    exact (hverifier b'').mp (not_throws_bind.mp (h callableFuncs b'' hok)).1
  · intro h
    refine not_throws_bind.mpr ⟨not_throws_tryEi, fun version b hversion => ?_⟩
    obtain ⟨hsize, hversion⟩ := getInt_eq_ok.mp (tryEi_eq_ok.mp hversion)
    obtain ⟨-, rfl⟩ := Prod.mk.inj hversion
    refine not_throws_bind.mpr ⟨not_throws_deserializeMeta, fun m b hmeta => ?_⟩
    obtain ⟨hdecs, h⟩ := h hsize m b hmeta
    refine not_throws_bind.mpr ⟨(hlist b).mpr hdecs, fun decs b' hok => ?_⟩
    obtain ⟨hcallable, h⟩ := h decs b' hok
    refine not_throws_bind.mpr ⟨(hfuncs b').mpr hcallable, fun callableFuncs b'' hok => ?_⟩
    refine not_throws_bind.mpr ⟨(hverifier b'').mpr (h callableFuncs b'' hok), ?_⟩
    intro _ _ _
    exact not_throws_pure

/-- **A contract is decoded or refused, and nothing is thrown, exactly when every read that
nothing guards finds what it reads.** -/
theorem not_throws_deserialize (arr : ByteStr) :
    ¬Throws (deserialize arr) ↔ ContractReadable arr := by
  rw [deserialize, throws_exceptMap]
  exact not_throws_deserializeDApp

end

end ContractSerDe

end Lang

end WavesNode
