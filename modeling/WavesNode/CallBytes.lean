/-
The call of an invocation, as an expression.

`Serde.deserializeCall` keeps of an argument what the ledger looks at: a literal, or the
bytes it is written as. The language's own reader (`Lang.Serde`) keeps the expression. They
are one function of the source, and `follows_desAux` says so: where the first reads, the
second reads as far, and what it read is written as the first one writes it. So the round
trip and the strict reading of expressions hold of calls too.
-/
import WavesNode.ContractSpelling
import WavesNode.Readers
import WavesNode.WireLayout

set_option autoImplicit false

namespace WavesNode

open ByteBuffer

namespace Serde

/-! ## 1. Arguments -/

/-- An argument stands for an expression that is written as it is. -/
def Writes (a : CallArg) (e : Lang.EXPR) : Prop := Lang.Serde.serAux e = .ok (serializeArg a)

theorem writeString_eq (s : String) : Lang.Serde.writeString s = writeString (utf8Bytes s) := rfl

theorem serArgs_of_writes {args : List CallArg} {es : List Lang.EXPR}
    (h : List.Forall₂ Writes args es) :
    Lang.Serde.serArgs es = .ok (args.map serializeArg).flatten := by
  induction h with
  | nil => rw [Lang.Serde.serArgs]; rfl
  | cons hw _ ih => rw [Lang.Serde.serArgs, hw, ih]; rfl

theorem flatMap_names (names : List String) :
    names.flatMap Lang.Serde.writeString =
      (names.map fun a => writeString (utf8Bytes a)).flatten := by
  rw [List.flatMap]
  rfl

theorem follows_getFunctionHeader :
    Follows getFunctionHeader (Lang.Serde.getFunctionHeader getString) Eq := .refl _

/-- A list after its count: the two checks are the same. -/
theorem follows_getList {α β : Type} {r : Reader α} {r' : Reader β} {R : α → β → Prop}
    {part : ℕ} {tooBig m : String} (h : Follows r r' R) :
    Follows (do
        let argc ← getInt
        let buf ← getThe ByteBuffer
        require (argc ≤ (buf.remaining / part : ℕ) && 0 ≤ argc) m
        fill r argc.toNat)
      (Lang.Serde.getList part tooBig r') (List.Forall₂ R) := by
  refine (Follows.refl getInt).bind ?_
  rintro argc _ rfl
  refine (Follows.refl _).bind ?_
  rintro buf _ rfl
  refine .require fun hcount => ?_
  rw [Bool.and_eq_true, decide_eq_true_eq, decide_eq_true_eq] at hcount
  rw [if_pos (by exact_mod_cast hcount)]
  exact h.fill _

theorem follows_readCall {expr : Reader CallArg} {des : Reader Lang.EXPR}
    (h : Follows expr des Writes) :
    Follows (readCall expr) (Lang.Serde.desTag getString des Lang.Serde.E_FUNCALL)
      fun f e => Lang.Serde.serAux e = .ok (serialize f) := by
  have hlist := @follows_getList _ _ _ _ _ 1 "array of arguments too big."
    "array of arguments too big." h
  have hcall : Follows (readCall expr)
      (do
        let header ← Lang.Serde.getFunctionHeader getString
        let args ← Lang.Serde.getList 1 "array of arguments too big." des
        pure (Lang.EXPR.FUNCTION_CALL header args))
      fun f e => Lang.Serde.serAux e = .ok (serialize f) := by
    refine follows_getFunctionHeader.bind ?_
    rintro header _ rfl
    have hread := @Follows.bind _ _ _ _ _ _ _
      (fun args => (pure ⟨header, args⟩ : Reader FunctionCall))
      (fun es => (pure (.FUNCTION_CALL header es) : Reader Lang.EXPR))
      (fun f e => Lang.Serde.serAux e = .ok (serialize f)) hlist (fun args es hargs => .pure ?_)
    · simp only [bind_assoc, Nat.div_one] at hread
      exact hread
    · rw [Lang.Serde.serAux, serArgs_of_writes hargs, ← hargs.length_eq]
      cases header <;> simp [serialize, Lang.Serde.writeFunctionHeader, writeFunctionHeader,
        Lang.Serde.E_FUNCALL, Lang.Serde.FH_NATIVE, Lang.Serde.FH_USER, writeString_eq, bind,
        Except.bind]
  exact hcall

theorem follows_readDeclaration {expr : Reader CallArg} {des : Reader Lang.EXPR}
    (h : Follows expr des Writes) (kind : Byte) :
    Follows (readDeclaration expr kind) (Lang.Serde.deserializeDeclaration getString des kind)
      fun w d => Lang.Serde.serializeDeclaration d = .ok w := by
  unfold readDeclaration
  by_cases hlet : kind = 0
  · rw [if_pos hlet, hlet]
    have hread : Follows
        (do
          let name ← getString
          let body ← expr
          pure (0 :: writeString (utf8Bytes name) ++ serializeArg body))
        (do
          let name ← getString
          let body ← des
          pure (Lang.DECLARATION.LET name body))
        fun w d => Lang.Serde.serializeDeclaration d = .ok w := by
      refine (Follows.refl getString).bind ?_
      rintro name _ rfl
      refine h.bind fun body e hbody => .pure ?_
      rw [Lang.Serde.serializeDeclaration, hbody]
      rfl
    exact hread
  · rw [if_neg hlet]
    by_cases hfunc : kind = 1
    · rw [if_pos hfunc, hfunc]
      have hnames := @follows_getList _ _ _ _ _ 2 "array of arguments names too big."
        "array of arguments names too big." (Follows.refl getString)
      have hread : Follows
          (do
            let name ← getString
            let argc ← getInt
            let buf ← getThe ByteBuffer
            require (argc ≤ (buf.remaining / 2 : ℕ) && 0 ≤ argc) "array of arguments names too big."
            let args ← fill getString argc.toNat
            let body ← expr
            pure (1 :: writeString (utf8Bytes name) ++ Ints.toByteArray args.length ++
              (args.map fun a => writeString (utf8Bytes a)).flatten ++ serializeArg body))
          (do
            let name ← getString
            let args ← Lang.Serde.getList 2 "array of arguments names too big." getString
            let body ← des
            pure (Lang.DECLARATION.FUNC name args body))
          fun w d => Lang.Serde.serializeDeclaration d = .ok w := by
        refine (Follows.refl getString).bind ?_
        rintro name _ rfl
        have hrest := @Follows.bind _ _ _ _ _ _ _
          (fun args => do
            let body ← expr
            pure (1 :: writeString (utf8Bytes name) ++ Ints.toByteArray args.length ++
              (args.map fun a => writeString (utf8Bytes a)).flatten ++ serializeArg body))
          (fun args => do
            let body ← des
            pure (Lang.DECLARATION.FUNC name args body))
          (fun w d => Lang.Serde.serializeDeclaration d = .ok w) hnames (fun args args' hargs => ?_)
        · simp only [bind_assoc] at hrest
          exact hrest
        · obtain rfl := List.forall₂_eq_eq_eq ▸ hargs
          refine h.bind fun body e hbody => .pure ?_
          rw [Lang.Serde.serializeDeclaration, hbody, ← flatMap_names]
          simp [writeString_eq, Lang.Serde.DEC_FUNC, bind, Except.bind]
      exact hread
    · rw [if_neg hfunc]
      exact .throw

/-- **One reader of expressions.** What the node reads as an argument the language reads as an
expression, with the same bytes. -/
theorem follows_desAux (fuel : ℕ) :
    Follows (desAux fuel) (Lang.Serde.desAux getString fuel) Writes := by
  induction fuel with
  | zero => exact .throw
  | succ fuel ih =>
    refine (Follows.refl ByteBuffer.get).bind ?_
    rintro tag _ rfl
    by_cases h0 : tag = 0
    · subst h0
      have hread : Follows (CallArg.CONST_LONG <$> getLong)
          ((fun n => Lang.EXPR.evaluated (.CONST_LONG n)) <$> getLong) Writes := by
        refine (Follows.refl getLong).map ?_
        rintro n _ rfl
        rfl
      exact hread
    by_cases h1 : tag = 1
    · subst h1
      have hread : Follows
          (do
            let v ← getBytes
            require (v.length ≤ DATA_TX_BYTES_MAX) "ByteStr exceeds the limit"
            pure (CallArg.CONST_BYTESTR v))
          (do
            let bs ← getBytes
            Lang.EXPR.evaluated <$> StateT.lift (Lang.EVALUATED.constBytestr bs)) Writes := by
        refine (Follows.refl getBytes).bind ?_
        rintro v _ rfl
        refine .require fun hsize => ?_
        have hlimit : v.length ≤ Lang.DATA_TX_BYTES_MAX := of_decide_eq_true hsize
        rw [Lang.EVALUATED.constBytestr, dif_pos hlimit]
        exact .pure rfl
      exact hread
    by_cases h2 : tag = 2
    · subst h2
      have hread : Follows
          (do
            let v ← getString
            require ((utf8Bytes v).length ≤ DATA_TX_BYTES_MAX) "String exceeds the limit"
            pure (CallArg.CONST_STRING v))
          (do
            let s ← getString
            Lang.EXPR.evaluated <$> StateT.lift (Lang.EVALUATED.constString s)) Writes := by
        refine (Follows.refl getString).bind ?_
        rintro v _ rfl
        refine .require fun hsize => ?_
        have hlimit : (utf8Bytes v).length ≤ Lang.DATA_TX_BYTES_MAX := of_decide_eq_true hsize
        rw [Lang.EVALUATED.constString, dif_pos hlimit]
        exact .pure rfl
      exact hread
    by_cases h3 : tag = 3
    · subst h3
      have hread : Follows
          (do
            let cond ← desAux fuel
            let ifTrue ← desAux fuel
            let ifFalse ← desAux fuel
            pure (CallArg.other (3 :: ([cond, ifTrue, ifFalse].map serializeArg).flatten)))
          (do
            let cond ← Lang.Serde.desAux getString fuel
            let ifTrue ← Lang.Serde.desAux getString fuel
            let ifFalse ← Lang.Serde.desAux getString fuel
            pure (Lang.EXPR.IF cond ifTrue ifFalse)) Writes := by
        refine ih.bind fun c _ hc => ih.bind fun t _ ht => ih.bind fun f _ hf => .pure ?_
        rw [Writes, Lang.Serde.serAux, hc, ht, hf]
        simp [serializeArg, Lang.Serde.E_IF, bind, Except.bind]
      change Follows _
        (do
          let cond ← Lang.Serde.desAux getString fuel
          let ifTrue ← Lang.Serde.desAux getString fuel
          let ifFalse ← Lang.Serde.desAux getString fuel
          pure (Lang.EXPR.IF cond ifTrue ifFalse)) Writes
      simpa [ByteBuffer.fill, bind_assoc] using hread
    by_cases h4 : tag = 4
    · subst h4
      have hread : Follows
          (do
            let name ← getString
            let value ← desAux fuel
            let body ← desAux fuel
            pure (CallArg.other (4 :: writeString (utf8Bytes name) ++
              ([value, body].map serializeArg).flatten)))
          (do
            let name ← getString
            let value ← Lang.Serde.desAux getString fuel
            let body ← Lang.Serde.desAux getString fuel
            pure (Lang.EXPR.LET_BLOCK name value body)) Writes := by
        refine (Follows.refl getString).bind ?_
        rintro name _ rfl
        refine ih.bind fun v _ hv => ih.bind fun b _ hb => .pure ?_
        rw [Writes, Lang.Serde.serAux, hv, hb]
        simp [serializeArg, Lang.Serde.E_BLOCK, writeString_eq, bind, Except.bind]
      change Follows _
        (do
          let name ← getString
          let value ← Lang.Serde.desAux getString fuel
          let body ← Lang.Serde.desAux getString fuel
          pure (Lang.EXPR.LET_BLOCK name value body)) Writes
      simpa [ByteBuffer.fill, bind_assoc] using hread
    by_cases h5 : tag = 5
    · subst h5
      have hread : Follows
          (do
            let key ← getString
            pure (CallArg.other (5 :: writeString (utf8Bytes key))))
          (Lang.EXPR.REF <$> getString) Writes := by
        rw [map_eq_pure_bind]
        refine (Follows.refl getString).bind ?_
        rintro key _ rfl
        refine .pure ?_
        rw [Writes, Lang.Serde.serAux]
        rfl
      exact hread
    by_cases h6 : tag = 6
    · subst h6
      have hread : Follows (pure (CallArg.CONST_BOOLEAN true))
          (pure (Lang.EXPR.evaluated (.CONST_BOOLEAN true))) Writes := .pure rfl
      exact hread
    by_cases h7 : tag = 7
    · subst h7
      have hread : Follows (pure (CallArg.CONST_BOOLEAN false))
          (pure (Lang.EXPR.evaluated (.CONST_BOOLEAN false))) Writes := .pure rfl
      exact hread
    by_cases h8 : tag = 8
    · subst h8
      have hread : Follows
          (do
            let obj ← desAux fuel
            let field ← getString
            pure (CallArg.other (8 :: serializeArg obj ++ writeString (utf8Bytes field))))
          (do
            let expr ← Lang.Serde.desAux getString fuel
            let field ← getString
            pure (Lang.EXPR.GETTER expr field)) Writes := by
        refine ih.bind fun obj _ hobj => (Follows.refl getString).bind ?_
        rintro field _ rfl
        refine .pure ?_
        rw [Writes, Lang.Serde.serAux, hobj]
        rfl
      exact hread
    by_cases h9 : tag = 9
    · subst h9
      have hread : Follows ((fun f => CallArg.other (serialize f)) <$> readCall (desAux fuel))
          (id <$> Lang.Serde.desTag getString (Lang.Serde.desAux getString fuel)
            Lang.Serde.E_FUNCALL) Writes :=
        (follows_readCall ih).map fun f e he => he
      rw [id_map] at hread
      exact hread
    by_cases h10 : tag = 10
    · subst h10
      have hread : Follows
          (do
            let kind ← ByteBuffer.get
            let dec ← readDeclaration (desAux fuel) kind
            let body ← desAux fuel
            pure (CallArg.other (10 :: dec ++ serializeArg body)))
          (do
            let decType ← ByteBuffer.get
            let dec ← Lang.Serde.deserializeDeclaration getString
              (Lang.Serde.desAux getString fuel) decType
            let body ← Lang.Serde.desAux getString fuel
            pure (Lang.EXPR.BLOCK dec body)) Writes := by
        refine (Follows.refl ByteBuffer.get).bind ?_
        rintro kind _ rfl
        refine (follows_readDeclaration ih kind).bind fun dec _ hdec => ih.bind fun b _ hb => .pure ?_
        rw [Writes, Lang.Serde.serAux, hdec, hb]
        rfl
      exact hread
    · rw [if_neg h0, if_neg h1, if_neg h2, if_neg h3, if_neg h4, if_neg h5, if_neg h6, if_neg h7,
        if_neg h8, if_neg h9, if_neg h10]
      exact .throw

/-! ## 2. Calls -/

/-- A call is read as the expression it is. -/
theorem follows_deserializeCall :
    Follows deserializeCall (Lang.ContractSerDe.readExpr getString)
      fun f e => Lang.Serde.serAux e = .ok (serialize f) := by
  intro b f b' h
  obtain ⟨buf, b₀, hbuf, h⟩ := bind_eq_ok.mp h
  have hsame : buf = b ∧ b₀ = b := by
    obtain ⟨hbuf, hb₀⟩ := Prod.mk.inj (Except.ok.inj hbuf)
    exact ⟨hbuf.symm, hb₀.symm⟩
  rw [hsame.1, hsame.2] at h
  obtain ⟨tag, b₂, htag, h⟩ := bind_eq_ok.mp h
  obtain ⟨hlt, htag⟩ := peek_eq_ok.mp htag
  rw [(Prod.mk.inj htag).1, (Prod.mk.inj htag).2] at h
  by_cases h9 : byteAt b.array (b.position + 0) = 9
  · rw [if_pos h9] at h
    obtain ⟨x, b₁, hx, h⟩ := bind_eq_ok.mp h
    obtain ⟨e, he, hwritten⟩ := follows_readCall (follows_desAux b.remaining) b₁ f b' h
    refine ⟨e, bind_eq_ok.mpr ⟨b, b, rfl, bind_eq_ok.mpr ⟨x, b₁, hx, ?_⟩⟩, hwritten⟩
    -- the tag that was looked at is the one that is read
    obtain ⟨-, hx⟩ := get_eq_ok.mp hx
    rw [(Prod.mk.inj hx).1, ← Nat.add_zero b.position, h9]
    exact he
  · rw [if_neg h9] at h
    obtain ⟨_, _, -, h⟩ := bind_eq_ok.mp h
    exact absurd h throw_ne_ok

/-- A call stands here all of whose strings are well formed. -/
def CallSpelled (l : ByteStr) (p : ℕ) : Prop :=
  ∃ e next, Lang.ContractSerDe.readExpr (Lang.ContractSerDe.readString true) ⟨l, p⟩ =
    .ok (e, next)

/-- An expression as the bytes from a place on, whatever reads it. -/
theorem readExpr_of_drop {l w t : ByteStr} {p : ℕ} {e : Lang.EXPR} (strict : Bool)
    (hp : p ≤ l.length) (hsize : l.length < 2 ^ 31) (hw : Lang.Serde.serAux e = .ok w)
    (h : l.drop p = w ++ t) :
    Lang.ContractSerDe.readExpr (Lang.ContractSerDe.readString strict) ⟨l, p⟩ =
      .ok (e, ⟨l, p + w.length⟩) := by
  have hlength : w.length < 2 ^ 31 := by
    have hdrop := congrArg List.length h
    rw [List.length_drop, List.length_append] at hdrop
    omega
  have htakes := Lang.ContractSerDe.takes_readExpr strict hw hlength (l.take p) t
  rwa [← h, List.take_append_drop, List.length_take, min_eq_left hp] at htakes

/-- **A call is written as it stands** exactly if its strings are well formed. -/
theorem spelt_deserializeCall {l : ByteStr} {p : ℕ} (hsize : l.length < 2 ^ 31) :
    Reads deserializeCall l p fun f q => Spelt l p (serialize f) (CallSpelled l p) q := by
  intro f b' h
  obtain ⟨harray, -⟩ := stays_deserializeCall l p f b' h
  refine ⟨harray, ?_⟩
  have hsame : b' = ⟨l, b'.position⟩ := by
    rw [← harray]
  obtain ⟨e, he, hwritten⟩ := follows_deserializeCall ⟨l, p⟩ f b' h
  rw [← Lang.ContractSerDe.readString_false] at he
  have hp : p ≤ l.length := by
    obtain ⟨_, _, hbuf, h⟩ := bind_eq_ok.mp h
    cases hbuf
    obtain ⟨_, _, htag, -⟩ := bind_eq_ok.mp h
    have hlt := (peek_eq_ok.mp htag).1
    dsimp only at hlt
    omega
  intro t
  constructor
  · intro hdrop
    refine ⟨⟨e, _, readExpr_of_drop true hp hsize hwritten hdrop⟩, ?_⟩
    have hplain := readExpr_of_drop false hp hsize hwritten hdrop
    rw [he] at hplain
    have hq : b'.position = p + (serialize f).length :=
      congrArg ByteBuffer.position (Prod.mk.inj (Except.ok.inj hplain)).2
    rw [hq, ← List.drop_drop, hdrop, List.drop_left]
  · rintro ⟨⟨e', next, he'⟩, rfl⟩
    obtain ⟨harray', w, hw, hspells⟩ := Lang.ContractSerDe.spelled_readExpr l p e' next he'
    -- what is read strictly is read plainly too, and is the same
    have hstretch : l.drop p = w ++ l.drop next.position := by
      obtain ⟨hle, hslice⟩ := hspells
      have hstretch := stretch_slice l p (next.position - p)
      rw [hslice rfl, Nat.add_sub_cancel' hle] at hstretch
      exact hstretch
    have hplain := readExpr_of_drop false hp hsize hw hstretch
    rw [he] at hplain
    obtain ⟨rfl, hnext⟩ := Prod.mk.inj (Except.ok.inj hplain)
    rw [hwritten] at hw
    obtain rfl := Except.ok.inj hw
    have hq : b'.position = p + (serialize f).length := congrArg ByteBuffer.position hnext
    have hdrop : l.drop next.position = l.drop (p + (serialize f).length) := by
      rw [← List.drop_drop, hstretch, List.drop_left]
    rw [hq, ← hdrop]
    exact hstretch

/-! ## 3. Calls of literals

A call that was validated has literals for arguments, and such a call is read as it was
written. -/

/-- An argument that is a literal. -/
def Literal (a : CallArg) : Prop := ∀ bytes, a ≠ .other bytes

theorem takes_literal {a : CallArg} (ha : Literal a) (fuel : ℕ)
    (hsize : (serializeArg a).length ≤ DATA_TX_BYTES_MAX) :
    Takes (desAux (fuel + 1)) (serializeArg a) a := by
  cases a with
  | CONST_LONG n => exact (takes_get 0).bind ((takes_getLong n).map (f := CallArg.CONST_LONG))
  | CONST_BYTESTR b =>
    rw [serializeArg, List.length_cons, writeString, List.length_append] at hsize
    have hlimit : b.length ≤ DATA_TX_BYTES_MAX := by omega
    have hbytes : b.length < 2 ^ 31 := by
      unfold DATA_TX_BYTES_MAX at hlimit
      omega
    have hcheck := takes_require (m := "ByteStr exceeds the limit") (decide_eq_true hlimit)
    have hread := (Lang.Serde.takes_getBytes hbytes).bind_nil
      (f := fun v => do
        require (v.length ≤ DATA_TX_BYTES_MAX) "ByteStr exceeds the limit"
        pure (CallArg.CONST_BYTESTR v))
      (hcheck.nil_bind (.pure (CallArg.CONST_BYTESTR b)))
    exact (takes_get 1).bind hread
  | CONST_STRING v =>
    rw [serializeArg, List.length_cons, writeString, List.length_append] at hsize
    have hlimit : (utf8Bytes v).length ≤ DATA_TX_BYTES_MAX := by omega
    have hbytes : (utf8Bytes v).length < 2 ^ 31 := by
      unfold DATA_TX_BYTES_MAX at hlimit
      omega
    have hcheck := takes_require (m := "String exceeds the limit") (decide_eq_true hlimit)
    have hread := (Lang.Serde.takes_getString v hbytes).bind_nil
      (f := fun v => do
        require ((utf8Bytes v).length ≤ DATA_TX_BYTES_MAX) "String exceeds the limit"
        pure (CallArg.CONST_STRING v))
      (hcheck.nil_bind (.pure (CallArg.CONST_STRING v)))
    exact (takes_get 2).bind hread
  | CONST_BOOLEAN b =>
    rcases b with _ | _
    · exact (takes_get 7).bind (.pure (CallArg.CONST_BOOLEAN false))
    · exact (takes_get 6).bind (.pure (CallArg.CONST_BOOLEAN true))
  | other bytes => exact absurd rfl (ha bytes)

/-- Every literal takes a byte at least. -/
theorem length_le_flatMap_serializeArg {args : List CallArg} (h : ∀ a ∈ args, Literal a) :
    args.length ≤ (args.flatMap serializeArg).length := by
  induction args with
  | nil => exact Nat.le_refl 0
  | cons a rest ih =>
    have hrest := ih fun b hb => h b (List.mem_cons_of_mem a hb)
    have hone : 1 ≤ (serializeArg a).length := by
      cases a with
      | CONST_BOOLEAN b => cases b <;> exact Nat.le_refl 1
      | other bytes => exact absurd rfl (h _ List.mem_cons_self bytes)
      | _ => simp [serializeArg]
    rw [List.flatMap_cons, List.length_append, List.length_cons]
    omega

theorem serialize_eq (f : FunctionCall) :
    serialize f = [9] ++ (Lang.Serde.writeFunctionHeader f.function ++
      (Ints.toByteArray f.args.length ++ f.args.flatMap serializeArg)) := by
  have hheader : writeFunctionHeader f.function = Lang.Serde.writeFunctionHeader f.function := by
    cases f.function <;> rfl
  rw [serialize, hheader, List.flatMap, List.cons_append, List.cons_append, List.append_assoc]
  rfl

theorem takes_deserializeCall {f : FunctionCall} (hargs : ∀ a ∈ f.args, Literal a)
    (hsize : (serialize f).length ≤ DATA_TX_BYTES_MAX) :
    Takes deserializeCall (serialize f) f := by
  have hcount := length_le_flatMap_serializeArg hargs
  rw [serialize_eq] at hsize ⊢
  rw [List.length_append, List.length_append, List.length_append] at hsize
  unfold DATA_TX_BYTES_MAX at hsize
  refine takes_getThe fun b hb => ?_
  obtain ⟨fuel, hfuel⟩ : ∃ fuel, b.remaining = fuel + 1 := by
    rw [List.length_append, List.length_singleton] at hb
    exact ⟨b.remaining - 1, by omega⟩
  have hlist : Takes (fill (desAux (fuel + 1)) f.args.length) (f.args.flatMap serializeArg)
      f.args := by
    refine .fill fun a ha => takes_literal (hargs a ha) fuel ?_
    obtain ⟨before, after, heq⟩ := List.append_of_mem ha
    have hflat : (f.args.flatMap serializeArg).length = (before.flatMap serializeArg).length +
        ((serializeArg a).length + (after.flatMap serializeArg).length) := by
      rw [heq, List.flatMap_append, List.flatMap_cons, List.length_append, List.length_append]
    unfold DATA_TX_BYTES_MAX
    omega
  have hcall : Takes (readCall (desAux b.remaining))
      (Lang.Serde.writeFunctionHeader f.function ++
        (Ints.toByteArray f.args.length ++ f.args.flatMap serializeArg)) f := by
    rw [hfuel]
    refine (Lang.Serde.takes_getFunctionHeader Lang.Serde.takes_getString (by omega)).bind ?_
    refine (takes_getInt (by omega)).bind (takes_getThe fun b hb => ?_)
    have hcheck : (decide ((f.args.length : ℤ) ≤ b.remaining) && decide (0 ≤ (f.args.length : ℤ))) =
        true := by
      rw [Bool.and_eq_true, decide_eq_true_eq, decide_eq_true_eq]
      omega
    refine (takes_require hcheck).nil_bind ?_
    rw [Int.toNat_natCast]
    exact hlist.bind_nil (.pure f)
  -- the tag is looked at before it is read
  intro before after
  refine bind_eq_ok.mpr ⟨9, _, peek_eq_ok.mpr ⟨?_, Prod.ext ?_ rfl⟩, ?_⟩
  · simp only [List.length_append, List.length_singleton]
    omega
  · rw [Nat.add_zero, byteAt, List.getD_eq_getElem?_getD,
      List.getElem?_append_right (Nat.le_refl _), Nat.sub_self]
    rfl
  · exact ((takes_get 9).bind hcall) before after

end Serde

end WavesNode
