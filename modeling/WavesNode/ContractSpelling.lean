/-
Contracts that are spelled as they are written.

The decoder of contracts lets four things pass that the encoder never writes: any version, any
spelling of the metadata, any count of verifiers, and strings that are no UTF-8. `readDApp` is
one reader for both readings, the decoder's own and the strict one, which asks for the
encoder's spelling. `like_deserializeDApp` says that the first is the decoder, and from there
on both go through the same lemmas: what was read strictly is spelled as it is written, and
what was written is read, strictly too.
-/
import WavesNode.Spelling
import WavesNode.ContractSerDe

set_option autoImplicit false

namespace WavesNode

namespace Lang

open ByteBuffer

/-! ## 1. A reader without its kinds of failure -/

section

variable {α β : Type}

/-- The two give the same values; they may fail in other words. -/
def Like (r : EitherReader α) (r' : Reader α) : Prop := ∀ b p, r b = .ok p ↔ r' b = .ok p

theorem Like.bind {r : EitherReader α} {r' : Reader α} {f : α → EitherReader β}
    {f' : α → Reader β} (h : Like r r') (hf : ∀ a, Like (f a) (f' a)) :
    Like (r >>= f) (r' >>= f') := by
  intro b p
  rw [EitherReader.bind_eq_ok, ByteBuffer.bind_eq_ok]
  refine exists_congr fun a => exists_congr fun b' => ?_
  rw [h b (a, b')]
  exact and_congr_right fun _ => hf a b' p

theorem Like.pure (a : α) : Like (pure a) (pure a) := by
  intro b p
  constructor
  · rintro h
    cases h
    rfl
  · rintro h
    cases h
    rfl

theorem Like.throw (e : Failure) (m : String) : Like (throw e : EitherReader α) (throw m) :=
  fun _ _ => iff_of_false (fun h => by cases h) (fun h => by cases h)

theorem Like.tryEi (r : Reader α) : Like (tryEi r) r := fun _ _ => tryEi_eq_ok

theorem Like.unguarded (r : Reader α) : Like (unguarded r) r := fun _ _ => unguarded_eq_ok

theorem Like.ite {r s : EitherReader α} {r' s' : Reader α} {c : Prop} [Decidable c]
    (h : Like r r') (h' : Like s s') : Like (if c then r else s) (if c then r' else s') := by
  by_cases hc : c
  · rw [if_pos hc, if_pos hc]
    exact h
  · rw [if_neg hc, if_neg hc]
    exact h'

theorem Like.map {r : EitherReader α} {r' : Reader α} {f : α → β} (h : Like r r') :
    Like (f <$> r) (f <$> r') := by
  rw [map_eq_pure_bind, map_eq_pure_bind]
  exact h.bind fun a => .pure (f a)

theorem Like.fill {r : EitherReader α} {r' : Reader α} (h : Like r r') :
    ∀ n, Like (EitherReader.fill r n) (fill r' n)
  | 0 => .pure []
  | n + 1 => h.bind fun _ => (Like.fill h n).bind fun _ => .pure _

end

namespace ContractSerDe

/-! ## 2. The reader, as it is and strict -/

/-- `getString`; strictly, of well-formed bytes only. -/
def readString (strict : Bool) : Reader String := do
  let bs ← WavesNode.Serde.getBytes
  require (!strict || utf8Bytes (decodeUtf8 bs) = bs) "malformed string"
  pure (decodeUtf8 bs)

section

variable (str : Reader String)

def readExpr : Reader EXPR := do
  let bb ← getThe ByteBuffer
  Serde.desAux str (bb.remaining + 1)

def readDeclaration : Reader DECLARATION := do
  let decType ← ByteBuffer.get
  Serde.deserializeDeclaration str (readExpr str) decType

def readFunction : Reader FUNC := do
  match ← readDeclaration str with
  | .FUNC name args body => pure ⟨name, args, body⟩
  | .LET _ _ => throw "ClassCastException"

/-- An annotated function; that of a call has a name of limited length. -/
def readAnnotated (limit : Bool) : Reader AnnotatedFunction := do
  let name ← str
  let f ← readFunction str
  require (!limit || (utf8Bytes f.name).length ≤ ContractLimits.MaxAnnotatedFunctionNameInBytes)
    "Callable function name longer than limit"
  pure ⟨name, f⟩

end

section

variable [DAppMetaSerializer]

/-- Metadata; strictly, spelled as they are written. -/
def readMeta (strict : Bool) : Reader DAppMetaSerializer.DAppMeta := do
  let size ← getInt
  require (size ≤ ContractLimits.MaxContractMetaSizeInBytes) "Script meta size in bytes"
  let arr ← getByteArray size
  let meta_ ← StateT.lift (DAppMetaSerializer.parseFrom arr)
  require (!strict || DAppMetaSerializer.toByteArray meta_ = arr) "metadata"
  pure meta_

/-- A verifier or none; strictly, after a count that is one or zero. -/
def readVerifier (strict : Bool) : Reader (Option AnnotatedFunction) := do
  let len ← getInt
  require (!strict || decide (len = 0 ∨ len = 1)) "count of verifiers"
  if len > 0 then some <$> readAnnotated (readString strict) false else pure none

/-- A contract; strictly, of version zero. -/
def readDApp (strict : Bool) : Reader DApp := do
  let version ← getInt
  require (!strict || version = 0) "version"
  let meta_ ← readMeta strict
  let decs ← Serde.getList 1 "array of arguments too big." (readDeclaration (readString strict))
  let callableFuncs ← Serde.getList 1 "array of arguments too big."
    (readAnnotated (readString strict) true)
  let verifierFuncOpt ← readVerifier strict
  pure ⟨meta_, decs, callableFuncs, verifierFuncOpt⟩

end

/-! ## 3. The decoder is the reader that is not strict -/

section

theorem readString_false : readString false = WavesNode.Serde.getString := by
  rw [readString, WavesNode.Serde.getString, map_eq_pure_bind]
  rfl

theorem like_deserializeDeclaration :
    Like deserializeDeclaration (readDeclaration WavesNode.Serde.getString) := by
  refine (Like.unguarded _).bind fun decType => .ite ?_ (.ite ?_ (.throw _ _))
  · exact (Like.unguarded _).bind fun name => .tryEi _
  · exact (Like.unguarded _).bind fun name => .tryEi _

theorem like_deserializeFunction :
    Like deserializeFunction (readFunction WavesNode.Serde.getString) := by
  refine like_deserializeDeclaration.bind fun d => ?_
  cases d with
  | LET name value => exact .throw _ _
  | FUNC name args body => exact .pure _

theorem like_deserializeCallableFunction :
    Like deserializeCallableFunction (readAnnotated WavesNode.Serde.getString true) := by
  refine (Like.tryEi _).bind fun ca => like_deserializeFunction.bind fun cf => ?_
  by_cases hname : (utf8Bytes cf.name).length ≤ ContractLimits.MaxAnnotatedFunctionNameInBytes
  · rw [if_pos hname, decide_eq_true hname]
    exact .pure _
  · rw [if_neg hname, decide_eq_false hname]
    exact .throw _ _

theorem like_deserializeVerifierFunction :
    Like deserializeVerifierFunction (readAnnotated WavesNode.Serde.getString false) :=
  (Like.tryEi _).bind fun _ => like_deserializeFunction.bind fun _ => .pure _

theorem like_getThe : Like (getThe ByteBuffer) (getThe ByteBuffer) := by
  intro b p
  constructor
  · intro hp
    cases hp
    rfl
  · intro hp
    cases hp
    rfl

theorem like_deserializeList {α : Type} {df : EitherReader α} {r : Reader α} (h : Like df r) :
    Like (deserializeList df) (Serde.getList 1 "array of arguments too big." r) := by
  refine (Like.unguarded _).bind fun len => like_getThe.bind fun bb => ?_
  rw [Int.natCast_one, Int.ediv_one]
  exact .ite (h.fill _) (.throw _ _)

variable [DAppMetaSerializer]

theorem like_deserializeMeta : Like deserializeMeta (readMeta false) := by
  refine (Like.tryEi _).bind fun size => Like.bind ?_ fun _ => ?_
  · rw [checkMetaSize]
    by_cases hsize : size ≤ ContractLimits.MaxContractMetaSizeInBytes
    · rw [if_pos hsize, decide_eq_true hsize]
      exact .pure ()
    · rw [if_neg hsize, decide_eq_false hsize]
      exact .throw _ _
  · -- what is required is nothing here
    have hsame : (do
        let arr ← getByteArray size
        let meta_ ← StateT.lift (DAppMetaSerializer.parseFrom arr)
        require (!false || DAppMetaSerializer.toByteArray meta_ = arr) "metadata"
        pure meta_) =
        getByteArray size >>= fun arr => StateT.lift (DAppMetaSerializer.parseFrom arr) := by
      refine congrArg (getByteArray size >>= ·) (funext fun arr => ?_)
      exact bind_pure _
    rw [hsame]
    exact .tryEi _

omit [DAppMetaSerializer] in
theorem like_deserializeOption :
    Like (deserializeOption deserializeVerifierFunction) (readVerifier false) := by
  refine (Like.tryEi _).bind fun len => ?_
  rw [readString_false]
  exact .ite like_deserializeVerifierFunction.map (.pure none)

/-- **The decoder of contracts is the reader that is not strict.** -/
theorem like_deserializeDApp : Like deserializeDApp (readDApp false) := by
  have hrequire : ∀ m, require true m = pure () := fun _ => rfl
  simp only [deserializeDApp, readDApp, Bool.not_false, Bool.true_or, hrequire, pure_bind]
  refine (Like.tryEi _).bind fun version => ?_
  refine like_deserializeMeta.bind fun meta_ => ?_
  rw [readString_false]
  refine (like_deserializeList like_deserializeDeclaration).bind fun decs => ?_
  refine (like_deserializeList like_deserializeCallableFunction).bind fun callableFuncs => ?_
  exact like_deserializeOption.bind fun verifierFuncOpt => .pure _

end

/-! ## 4. What was read is spelled -/

section

variable {strict : Bool}

theorem spelled_readString : Spelled (strict = true) (readString strict) Serde.writeString := by
  intro l p
  refine (spelled_getBytes (strict = true) l p).bind fun bs q hbs => ?_
  refine reads_require.bind fun u q' hu => .pure ?_
  obtain ⟨hrequire, rfl⟩ := hu
  obtain ⟨hle, hbs⟩ := hbs
  refine ⟨hle, fun hstrict => ?_⟩
  have hformed : utf8Bytes (decodeUtf8 bs) = bs := by
    rw [hstrict, Bool.not_true, Bool.false_or] at hrequire
    exact of_decide_eq_true hrequire
  rw [Serde.writeString, hformed]
  exact hbs hstrict

theorem spelled_readExpr : SpelledIf (strict = true) (readExpr (readString strict)) Serde.serAux := by
  intro l p
  refine reads_getThe.bind fun b q hb => ?_
  obtain ⟨-, rfl⟩ := hb
  exact spelled_desAux spelled_readString _ l q

theorem spelled_readDeclaration (strict : Bool) :
    SpelledIf (strict = true) (readDeclaration (readString strict)) Serde.serializeDeclaration := by
  intro l p
  refine (spelled_get (strict = true) l p).bind fun decType q htype => ?_
  exact reads_deserializeDeclaration spelled_readString spelled_readExpr htype

theorem spelled_readFunction (strict : Bool) : SpelledIf (strict = true) (readFunction (readString strict))
    fun f => Serde.serializeDeclaration f.declaration := by
  intro l p
  refine (spelled_readDeclaration strict l p).bind fun d q hd => ?_
  cases d with
  | LET name value => exact .throw
  | FUNC name args body => exact .pure hd

/-- An annotated function is spelled, and if its name is limited the limit is kept. -/
theorem spelled_readAnnotated (strict limit : Bool) (l : ByteStr) (p : ℕ) :
    Reads (readAnnotated (readString strict) limit) l p fun f q =>
      (∃ w, serializeAnnotatedFunction f = .ok w ∧ Spells (strict = true) l p q w) ∧
        (limit = true → (utf8Bytes f.u.name).length ≤
          ContractLimits.MaxAnnotatedFunctionNameInBytes) := by
  refine (spelled_readString l p).bind fun name q hname => ?_
  refine (spelled_readFunction strict l q).bind fun f r hf => ?_
  refine reads_require.bind fun u r' hu => .pure ?_
  obtain ⟨hrequire, rfl⟩ := hu
  obtain ⟨w, hw, hf⟩ := hf
  refine ⟨⟨_, ?_, hname.append hf⟩, fun hlimit => ?_⟩
  · rw [serializeAnnotatedFunction]
    dsimp only at hw ⊢
    rw [hw]
    rfl
  · rw [hlimit, Bool.not_true, Bool.false_or] at hrequire
    exact of_decide_eq_true hrequire

theorem spelled_readCallable (strict : Bool) :
    SpelledIf (strict = true) (readAnnotated (readString strict) true)
      serializeAnnotatedFunction :=
  fun l p => (spelled_readAnnotated strict true l p).mono fun _ _ h => h.1

/-- A list that was read and is spelled is what its writer writes. -/
theorem serializeList_of_forall₂ {α : Type} {write : α → Except String ByteStr} {as : List α}
    {ws : List ByteStr} (h : List.Forall₂ (fun a w => write a = .ok w) as ws) :
    serializeList write as = .ok (Ints.toByteArray as.length ++ ws.flatten) := by
  have hwritten : as.mapM write = .ok ws := by
    induction h with
    | nil => rfl
    | cons hw _ ih => rw [List.mapM_cons, hw, ih]; rfl
  rw [serializeList, hwritten]
  rfl

/-- A list of what keeps a condition. -/
theorem reads_getList_forall {α : Type} {r : Reader α} {P : α → Prop}
    (h : ∀ l p, Reads r l p fun a _ => P a) (part : ℕ) (tooBig : String) (l : ByteStr) (p : ℕ) :
    Reads (Serde.getList part tooBig r) l p fun as _ => ∀ a ∈ as, P a := by
  refine reads_getInt.bind fun cnt q hcnt => reads_getThe.bind fun b q' hb => ?_
  exact .ite (fun _ => Reads.fill_forall (h l) _ _) fun _ => .throw

variable [DAppMetaSerializer]

/-- Metadata that were read: the bytes they were read from, which strictly are their own. -/
theorem reads_readMeta (strict : Bool) (l : ByteStr) (p : ℕ) :
    Reads (readMeta strict) l p fun m q =>
      intAt l p ≤ ContractLimits.MaxContractMetaSizeInBytes ∧
      DAppMetaSerializer.parseFrom (slice l (p + 4) (intAt l p).toNat) = .ok m ∧
      (strict = true → DAppMetaSerializer.toByteArray m = slice l (p + 4) (intAt l p).toNat) ∧
      Spells (strict = true) l p q (Serde.writeBytes (DAppMetaSerializer.toByteArray m)) := by
  refine ((reads_size (strict = true)).and reads_getInt).bind fun size q hsize => ?_
  obtain ⟨hspells, rfl, rfl⟩ := hsize
  refine reads_require.bind fun u q hu => ?_
  obtain ⟨hlimit, rfl⟩ := hu
  refine reads_getByteArray.bind fun arr r harr => ?_
  obtain ⟨hnonneg, rfl, hlength, rfl⟩ := harr
  rcases hparse : DAppMetaSerializer.parseFrom (slice l (p + 4) (intAt l p).toNat) with e | m
  · exact .throw
  · refine (Reads.pure (Q := fun m' q' => m' = m ∧ q' = p + 4 + (intAt l p).toNat)
      ⟨rfl, rfl⟩).bind fun m' q' hm => ?_
    obtain ⟨rfl, rfl⟩ := hm
    refine reads_require.bind fun u q' hu => .pure ?_
    obtain ⟨hrequire, rfl⟩ := hu
    have hown : strict = true →
        DAppMetaSerializer.toByteArray m' = slice l (p + 4) (intAt l p).toNat := by
      intro hstrict
      rw [hstrict, Bool.not_true, Bool.false_or] at hrequire
      exact of_decide_eq_true hrequire
    refine ⟨of_decide_eq_true hlimit, rfl, hown, by omega, fun hstrict => ?_⟩
    have hwhole := (hspells hnonneg).append (.slice (p := p + 4) (intAt l p).toNat)
    rw [Serde.writeBytes, hown hstrict, hlength]
    exact hwhole.2 hstrict

omit [DAppMetaSerializer] in
/-- A count that strictly is a certain one. -/
theorem spells_count {l : ByteStr} {p q n : ℕ} {len : ℤ} (hq : q = p + 4)
    (hspells : 0 ≤ len → Spells (strict = true) l p q (Ints.toByteArray len.toNat))
    (hlen : strict = true → len = n) : Spells (strict = true) l p q (Ints.toByteArray n) := by
  refine ⟨by omega, fun hstrict => ?_⟩
  have hlen := hlen hstrict
  have hcount := (hspells (by omega)).2 hstrict
  rwa [hlen, Int.toNat_natCast] at hcount

omit [DAppMetaSerializer] in
theorem spelled_readVerifier (strict : Bool) : SpelledIf (strict = true) (readVerifier strict) fun o =>
    serializeList serializeAnnotatedFunction o.toList := by
  intro l p
  refine ((reads_size (strict = true)).and reads_getInt).bind fun len q hlen => ?_
  obtain ⟨hspells, -, hq⟩ := hlen
  refine reads_require.bind fun u q' hu => ?_
  obtain ⟨hrequire, rfl⟩ := hu
  have hstrictly : strict = true → len = 0 ∨ len = 1 := by
    intro hstrict
    rw [hstrict, Bool.not_true, Bool.false_or] at hrequire
    exact of_decide_eq_true hrequire
  refine .ite (fun hpos => ?_) fun hnone => .pure ?_
  · refine (spelled_readAnnotated strict false l q').map fun f r hf => ?_
    obtain ⟨⟨w, hw, hf⟩, -⟩ := hf
    have hcount : Spells (strict = true) l p q' (Ints.toByteArray 1) :=
      spells_count hq hspells fun hstrict => by
        rcases hstrictly hstrict with h | h
        · omega
        · exact h
    refine ⟨_, serializeList_of_forall₂ (.cons hw .nil), ?_⟩
    rw [List.flatten_cons, List.flatten_nil, List.append_nil]
    exact hcount.append hf
  · have hcount : Spells (strict = true) l p q' (Ints.toByteArray 0) :=
      spells_count hq hspells fun hstrict => by
        rcases hstrictly hstrict with h | h
        · exact h
        · omega
    refine ⟨_, serializeList_of_forall₂ .nil, ?_⟩
    rw [List.flatten_nil, List.append_nil]
    exact hcount

/-- The names of calls that were read are not too long. -/
def NamesLimited (c : DApp) : Prop :=
  ∀ f ∈ c.callableFuncs,
    (utf8Bytes f.u.name).length ≤ ContractLimits.MaxAnnotatedFunctionNameInBytes

/-- **What is read as a contract can be written, if its metadata can, and what is read strictly
is spelled as it is written.** -/
theorem reads_readDApp (l : ByteStr) (p : ℕ) :
    Reads (readDApp strict) l p fun c q =>
      NamesLimited c ∧
      DAppMetaSerializer.parseFrom (slice l (p + 4 + 4) (intAt l (p + 4)).toNat) = .ok c.meta_ ∧
      (strict = true → (DAppMetaSerializer.toByteArray c.meta_).length ≤
          ContractLimits.MaxContractMetaSizeInBytes ∧
        DAppMetaSerializer.parseFrom (DAppMetaSerializer.toByteArray c.meta_) = .ok c.meta_) ∧
      ((DAppMetaSerializer.toByteArray c.meta_).length ≤
          ContractLimits.MaxContractMetaSizeInBytes →
        ∃ w, serialize c = .ok w ∧ Spells (strict = true) l p q w) := by
  refine ((reads_size (strict = true)).and reads_getInt).bind fun version q hversion => ?_
  obtain ⟨hspells, -, hq⟩ := hversion
  refine reads_require.bind fun u q' hu => ?_
  obtain ⟨hrequire, rfl⟩ := hu
  refine (reads_readMeta strict l q').bind fun m q₁ hm => ?_
  obtain ⟨hlimit, hparse, hown, hmeta⟩ := hm
  refine (spelled_getList (spelled_readDeclaration strict) _ _ l q₁).bind
    fun decs q₂ hdecs => ?_
  have hcallable := spelled_getList (spelled_readCallable strict) 1 "array of arguments too big." l q₂
  have hnames := reads_getList_forall (fun l p => (spelled_readAnnotated strict true l p).mono
    fun _ _ h => h.2 rfl) 1 "array of arguments too big." l q₂
  refine (hcallable.and hnames).bind fun funcs q₃ hfuncs => ?_
  obtain ⟨hfuncs, hnames⟩ := hfuncs
  refine (spelled_readVerifier strict l q₃).bind fun o q₄ ho => .pure ?_
  obtain ⟨ws, hws, hdecs⟩ := hdecs
  obtain ⟨vs, hvs, hfuncs⟩ := hfuncs
  obtain ⟨w, hw, ho⟩ := ho
  have hzero : Spells (strict = true) l p q' (Ints.toByteArray 0) :=
    spells_count hq hspells fun hstrict => by
      rw [hstrict, Bool.not_true, Bool.false_or] at hrequire
      exact of_decide_eq_true hrequire
  subst hq
  have hwhole := hzero.append (hmeta.append (hdecs.append (hfuncs.append ho)))
  refine ⟨hnames, hparse, fun hstrict => ?_, fun hsize => ⟨_, ?_, hwhole⟩⟩
  · have hown := hown hstrict
    dsimp only
    refine ⟨?_, by rw [hown]; exact hparse⟩
    have hslice := List.length_take_le (intAt l (p + 4)).toNat (l.drop (p + 4 + 4))
    rw [hown, slice]
    omega
  · rw [serialize, checkMetaSize, if_pos (by exact_mod_cast hsize),
      serializeList_of_forall₂ hws, serializeList_of_forall₂ hvs]
    dsimp only at hw ⊢
    rw [hw]
    rfl

end

/-! ## 5. What was written is read -/

section

variable {strict : Bool}

theorem takes_readString : Serde.TakesStrings (readString strict) := by
  intro s hsize
  refine (Serde.takes_getBytes hsize).bind_nil ?_
  -- what is written for a string is well formed
  have hformed : (!strict || decide (utf8Bytes (decodeUtf8 (utf8Bytes s)) = utf8Bytes s)) = true := by
    rw [decodeUtf8_utf8Bytes, decide_eq_true rfl, Bool.or_true]
  refine (takes_require hformed).bind_nil (f := fun _ => pure (decodeUtf8 (utf8Bytes s))) ?_
  rw [decodeUtf8_utf8Bytes]
  exact .pure s

theorem takes_readExpr (strict : Bool) {e : EXPR} {w : ByteStr} (h : Serde.serAux e = .ok w)
    (hsize : w.length < 2 ^ 31) : Takes (readExpr (readString strict)) w e :=
  takes_getThe fun b hb =>
    (Serde.takes_desAux takes_readString e (b.remaining + 1) h hsize (by omega)).2

theorem takes_readDeclaration {d : DECLARATION} {w : ByteStr}
    (h : Serde.serializeDeclaration d = .ok w) (hsize : w.length < 2 ^ 31) :
    0 < w.length ∧ Takes (readDeclaration (readString strict)) w d := by
  cases d with
  | LET name value =>
    rw [Serde.serializeDeclaration] at h
    obtain ⟨v, hv, h⟩ := Except.bind_eq_ok.mp h
    cases h
    simp only [List.length_append, List.length_singleton, Serde.length_writeString] at hsize ⊢
    have hvalue := takes_readExpr strict hv (by omega)
    refine ⟨by omega, ?_⟩
    exact (takes_get _).bind (Serde.takes_LET takes_readString hvalue (by omega))
  | FUNC name args body =>
    rw [Serde.serializeDeclaration] at h
    obtain ⟨b, hb, h⟩ := Except.bind_eq_ok.mp h
    cases h
    simp only [List.length_append, List.length_singleton, Serde.length_writeString] at hsize ⊢
    have hbody := takes_readExpr strict hb (by omega)
    refine ⟨by omega, ?_⟩
    exact (takes_get _).bind (Serde.takes_FUNC takes_readString hbody (by omega) (by omega))

theorem takes_readAnnotated (strict limit : Bool) {f : AnnotatedFunction} {w : ByteStr}
    (h : serializeAnnotatedFunction f = .ok w) (hsize : w.length < 2 ^ 31)
    (hname : limit = true →
      (utf8Bytes f.u.name).length ≤ ContractLimits.MaxAnnotatedFunctionNameInBytes) :
    0 < w.length ∧ Takes (readAnnotated (readString strict) limit) w f := by
  rw [serializeAnnotatedFunction] at h
  obtain ⟨d, hd, h⟩ := Except.bind_eq_ok.mp h
  cases h
  rw [List.length_append, Serde.length_writeString] at hsize ⊢
  refine ⟨by omega, ?_⟩
  have hfunction : Takes (readFunction (readString strict)) d f.u :=
    (takes_readDeclaration hd (by omega)).2.bind_nil (.pure _)
  have hlimit : (!limit || decide ((utf8Bytes f.u.name).length ≤
      ContractLimits.MaxAnnotatedFunctionNameInBytes)) = true := by
    rcases limit with _ | _
    · rfl
    · rw [decide_eq_true (hname rfl)]
      rfl
  exact (takes_readString _ (by omega)).bind
    (hfunction.bind_nil ((takes_require hlimit).bind_nil (.pure _)))

theorem takes_fill_list {α : Type} {r : Reader α} {write : α → Except String ByteStr}
    {as : List α} {vs : List ByteStr} (h : as.mapM write = .ok vs) (hsize : vs.flatten.length < 2 ^ 31)
    (hr : ∀ a ∈ as, ∀ v, write a = .ok v → v.length < 2 ^ 31 → 0 < v.length ∧ Takes r v a) :
    as.length ≤ vs.flatten.length ∧ Takes (fill r as.length) vs.flatten as := by
  induction as generalizing vs with
  | nil =>
    cases h
    exact ⟨Nat.le_refl 0, .pure []⟩
  | cons a as ih =>
    rw [List.mapM_cons] at h
    obtain ⟨v, hv, h⟩ := Except.bind_eq_ok.mp h
    obtain ⟨vs, hvs, h⟩ := Except.bind_eq_ok.mp h
    cases h
    rw [List.flatten_cons, List.length_append] at hsize ⊢
    obtain ⟨hpos, hfirst⟩ := hr a List.mem_cons_self v hv (by omega)
    obtain ⟨hlength, hrest⟩ := ih hvs (by omega) fun a' ha' => hr a' (List.mem_cons_of_mem _ ha')
    rw [List.length_cons]
    exact ⟨by omega, hfirst.bind (hrest.bind_nil (.pure _))⟩

/-- A list of what is read as it was written. -/
theorem takes_list {α : Type} {r : Reader α} {write : α → Except String ByteStr} {as : List α}
    {w : ByteStr} (h : serializeList write as = .ok w) (hsize : w.length < 2 ^ 31)
    (hr : ∀ a ∈ as, ∀ v, write a = .ok v → v.length < 2 ^ 31 → 0 < v.length ∧ Takes r v a) :
    Takes (Serde.getList 1 "array of arguments too big." r) w as := by
  rw [serializeList] at h
  obtain ⟨vs, hvs, h⟩ := Except.bind_eq_ok.mp h
  cases h
  rw [List.length_append] at hsize
  obtain ⟨hlength, hfill⟩ := takes_fill_list hvs (by omega) hr
  exact Serde.takes_getList Nat.one_pos hfill (by omega) (by omega)

variable [DAppMetaSerializer]

theorem takes_readMeta {m : DAppMetaSerializer.DAppMeta}
    (hparse : DAppMetaSerializer.parseFrom (DAppMetaSerializer.toByteArray m) = .ok m)
    (hsize : (DAppMetaSerializer.toByteArray m).length ≤
      ContractLimits.MaxContractMetaSizeInBytes) :
    Takes (readMeta strict) (Serde.writeBytes (DAppMetaSerializer.toByteArray m)) m := by
  have hint : (DAppMetaSerializer.toByteArray m).length < 2 ^ 31 := by
    unfold ContractLimits.MaxContractMetaSizeInBytes at hsize
    omega
  have hlimit : decide (((DAppMetaSerializer.toByteArray m).length : ℤ) ≤
      ContractLimits.MaxContractMetaSizeInBytes) = true := decide_eq_true (by exact_mod_cast hsize)
  have hown : (!strict || decide (DAppMetaSerializer.toByteArray m =
      DAppMetaSerializer.toByteArray m)) = true := by
    rw [decide_eq_true rfl, Bool.or_true]
  refine (takes_getInt hint).bind ((takes_require hlimit).bind
    ((takes_getByteArray rfl).bind_nil ?_))
  rw [hparse]
  exact (Takes.pure m).bind_nil ((takes_require hown).bind_nil (.pure m))

omit [DAppMetaSerializer] in
theorem takes_readVerifier {o : Option AnnotatedFunction} {w : ByteStr}
    (h : serializeList serializeAnnotatedFunction o.toList = .ok w) (hsize : w.length < 2 ^ 31) :
    Takes (readVerifier strict) w o := by
  rw [serializeList] at h
  obtain ⟨vs, hvs, h⟩ := Except.bind_eq_ok.mp h
  cases h
  cases o with
  | none =>
    cases hvs
    have hcount : (!strict || decide ((0 : ℤ) = 0 ∨ (0 : ℤ) = 1)) = true := by
      rw [decide_eq_true (.inl rfl), Bool.or_true]
    refine (takes_getInt (n := 0) (by omega)).bind ((takes_require hcount).bind_nil ?_)
    rw [if_neg (by omega)]
    exact .pure none
  | some f =>
    rw [Option.toList_some, List.mapM_cons, List.mapM_nil] at hvs
    obtain ⟨v, hv, hvs⟩ := Except.bind_eq_ok.mp hvs
    cases hvs
    rw [List.length_append, List.flatten_cons, List.flatten_nil, List.append_nil] at hsize
    have hf := (takes_readAnnotated strict false hv (by omega)
      fun h => by cases h).2
    have hcount : (!strict || decide ((1 : ℤ) = 0 ∨ (1 : ℤ) = 1)) = true := by
      rw [decide_eq_true (.inr rfl), Bool.or_true]
    rw [List.flatten_cons, List.flatten_nil, List.append_nil]
    refine (takes_getInt (n := 1) (by omega)).bind ?_
    refine (takes_require hcount).nil_bind ?_
    rw [if_pos (by omega)]
    exact hf.map

/-- **What is written for a contract is read as that contract, strictly too**, if its metadata
are parsed as they are written and its names are not too long. -/
theorem takes_readDApp (strict : Bool) {c : DApp} {w : ByteStr} (h : serialize c = .ok w)
    (hsize : w.length < 2 ^ 31)
    (hparse : DAppMetaSerializer.parseFrom (DAppMetaSerializer.toByteArray c.meta_) = .ok c.meta_)
    (hnames : NamesLimited c) : Takes (readDApp strict) w c := by
  rw [serialize] at h
  obtain ⟨u, hcheck, h⟩ := Except.bind_eq_ok.mp h
  obtain ⟨decs, hdecs, h⟩ := Except.bind_eq_ok.mp h
  obtain ⟨funcs, hfuncs, h⟩ := Except.bind_eq_ok.mp h
  obtain ⟨verifier, hverifier, h⟩ := Except.bind_eq_ok.mp h
  cases h
  have hlimit : (DAppMetaSerializer.toByteArray c.meta_).length ≤
      ContractLimits.MaxContractMetaSizeInBytes := by
    rw [checkMetaSize] at hcheck
    split_ifs at hcheck with hle
    exact_mod_cast hle
  simp only [List.length_append] at hsize
  have hversion : (!strict || decide ((0 : ℤ) = 0)) = true := by
    rw [decide_eq_true rfl, Bool.or_true]
  refine (takes_getInt (n := 0) (by omega)).bind ?_
  refine (takes_require hversion).nil_bind ?_
  refine (takes_readMeta hparse hlimit).bind ?_
  refine (takes_list hdecs (by omega) fun d _ v hv hlt => takes_readDeclaration hv hlt).bind ?_
  refine (takes_list hfuncs (by omega) fun f hf v hv hlt =>
    takes_readAnnotated strict true hv hlt fun _ => hnames f hf).bind ?_
  exact (takes_readVerifier hverifier (by omega)).bind_nil (.pure c)

end

end ContractSerDe

end Lang

end WavesNode
