/-
What was read, written again.

A stretch of an array spells what the reader made of it if it is what the writer writes for
that. Every part of the wire format is spelled so, but for the strings: bytes that are no
UTF-8 are read as a string all the same, with replacement characters, and are spelled
otherwise. So the reader of strings is a parameter here, and with it whether what it read is
spelled; that something can be written at all holds for both.
-/
import WavesNode.Serde

set_option autoImplicit false

namespace WavesNode

namespace Lang

open ByteBuffer

/-! ## 1. Stretches -/

/-- The stretch from `p` to `q`; if strictness is asked for, it is the given bytes. -/
def Spells (strict : Prop) (l : ByteStr) (p q : ℕ) (w : ByteStr) : Prop :=
  p ≤ q ∧ (strict → slice l p (q - p) = w)

section

variable {strict : Prop} {l : ByteStr} {p q r : ℕ} {w w' : ByteStr}

theorem Spells.nil : Spells strict l p p [] := by
  refine ⟨Nat.le_refl p, fun _ => ?_⟩
  rw [Nat.sub_self, slice, List.take_zero]

theorem Spells.append (h : Spells strict l p q w) (h' : Spells strict l q r w') :
    Spells strict l p r (w ++ w') := by
  obtain ⟨hpq, hw⟩ := h
  obtain ⟨hqr, hw'⟩ := h'
  refine ⟨Nat.le_trans hpq hqr, fun hstrict => ?_⟩
  have hdrop : l.drop q = (l.drop p).drop (q - p) := by
    rw [List.drop_drop]
    congr 1
    omega
  have hsize : r - p = (q - p) + (r - q) := by omega
  rw [← hw hstrict, ← hw' hstrict, slice, slice, slice, hdrop, hsize, List.take_add]

/-- What a read of `n` bytes gave spells itself. -/
theorem Spells.slice (n : ℕ) : Spells strict l p (p + n) (ByteBuffer.slice l p n) := by
  refine ⟨Nat.le_add_right p n, fun _ => ?_⟩
  rw [Nat.add_sub_cancel_left]

/-- A reader whose every value is spelled as the writer writes it. -/
def Spelled {α : Type} (strict : Prop) (r : Reader α) (write : α → ByteStr) : Prop :=
  ∀ l p, Reads r l p fun a q => Spells strict l p q (write a)

/-- The same for a writer that does not write everything; it writes what is read. -/
def SpelledIf {α : Type} (strict : Prop) (r : Reader α) (write : α → Except String ByteStr) :
    Prop :=
  ∀ l p, Reads r l p fun a q => ∃ w, write a = .ok w ∧ Spells strict l p q w

theorem Spelled.spelledIf {α : Type} {r : Reader α} {write : α → ByteStr}
    (h : Spelled strict r write) : SpelledIf strict r fun a => .ok (write a) :=
  fun l p => (h l p).mono fun _ _ ha => ⟨_, rfl, ha⟩

end

/-! ## 2. Primitives -/

section

variable {strict : Prop}

theorem spelled_get (strict : Prop) : Spelled strict ByteBuffer.get fun x => [x] := by
  intro l p x b' h
  obtain ⟨hlt, h⟩ := get_eq_ok.mp h
  obtain ⟨rfl, rfl⟩ := Prod.mk.inj h
  refine ⟨rfl, Nat.le_add_right p 1, fun _ => ?_⟩
  have hone : slice l p 1 = [byteAt l p] := by
    rw [slice, byteAt, List.getD_eq_getElem?_getD, List.getElem?_eq_getElem hlt,
      List.drop_eq_getElem_cons hlt]
    rfl
  rw [advance_position, Nat.add_sub_cancel_left]
  exact hone

theorem spelled_getLong (strict : Prop) : Spelled strict getLong Longs.toByteArray := by
  intro l p x b' h
  obtain ⟨hle, h⟩ := getLong_eq_ok.mp h
  obtain ⟨rfl, rfl⟩ := Prod.mk.inj h
  refine ⟨rfl, ?_⟩
  dsimp only at hle ⊢
  rw [longAt, Longs.toByteArray_fromByteArray (length_slice hle)]
  exact .slice 8

theorem spelled_getShort (strict : Prop) :
    Spelled strict getShort fun n => Shorts.toByteArray (Int16.ofInt n).toUInt16.toNat := by
  intro l p x b' h
  obtain ⟨hle, h⟩ := getShort_eq_ok.mp h
  obtain ⟨rfl, rfl⟩ := Prod.mk.inj h
  refine ⟨rfl, ?_⟩
  dsimp only at hle ⊢
  rw [shortAt, Shorts.toByteArray_ofInt (length_slice hle)]
  exact .slice 2

/-- A size that is not negative. -/
theorem reads_size (strict : Prop) {l : ByteStr} {p : ℕ} :
    Reads getInt l p fun n q => 0 ≤ n → Spells strict l p q (Ints.toByteArray n.toNat) := by
  intro n b' h
  obtain ⟨hle, h⟩ := getInt_eq_ok.mp h
  obtain ⟨rfl, rfl⟩ := Prod.mk.inj h
  refine ⟨rfl, fun hsize => ?_⟩
  dsimp only at hle hsize ⊢
  rw [intAt] at hsize ⊢
  rw [Ints.toByteArray_toNat (length_slice hle) hsize]
  exact .slice 4

theorem spelled_getBytes (strict : Prop) :
    Spelled strict WavesNode.Serde.getBytes Serde.writeBytes := by
  intro l p
  refine (reads_size strict).bind fun len q hlen => ?_
  refine reads_getThe.bind fun b q' hb => ?_
  refine reads_require.bind fun u q'' hu => ?_
  refine reads_getByteArray.mono fun bs r h => ?_
  obtain ⟨hsize, rfl, hlength, rfl⟩ := h
  obtain ⟨-, rfl⟩ := hu
  obtain ⟨-, rfl⟩ := hb
  rw [Serde.writeBytes, hlength]
  exact (hlen hsize).append (.slice _)

/-- One after another, each spelled as it is written. -/
theorem spelled_fill {α : Type} {r : Reader α} {write : α → Except String ByteStr}
    (h : SpelledIf strict r write) (n : ℕ) (l : ByteStr) (p : ℕ) :
    Reads (fill r n) l p fun as q => as.length = n ∧
      ∃ ws, List.Forall₂ (fun a w => write a = .ok w) as ws ∧ Spells strict l p q ws.flatten := by
  induction n generalizing p with
  | zero => exact .pure ⟨rfl, [], .nil, .nil⟩
  | succ n ih =>
    refine (h l p).bind fun a q ha => (ih q).bind fun as q' has => .pure ?_
    obtain ⟨w, hw, hfirst⟩ := ha
    obtain ⟨hlength, ws, hws, hrest⟩ := has
    refine ⟨congrArg (· + 1) hlength, w :: ws, .cons hw hws, ?_⟩
    rw [List.flatten_cons]
    exact hfirst.append hrest

/-- A list after its count. -/
theorem spelled_getList {α : Type} {r : Reader α} {write : α → Except String ByteStr}
    (h : SpelledIf strict r write) (part : ℕ) (tooBig : String) (l : ByteStr) (p : ℕ) :
    Reads (Serde.getList part tooBig r) l p fun as q =>
      ∃ ws, List.Forall₂ (fun a w => write a = .ok w) as ws ∧
        Spells strict l p q (Ints.toByteArray as.length ++ ws.flatten) := by
  refine (reads_size strict).bind fun cnt q hcnt => ?_
  refine reads_getThe.bind fun b q' hb => ?_
  obtain ⟨rfl, rfl⟩ := hb
  by_cases hcount : cnt ≤ ((⟨l, q'⟩ : ByteBuffer).remaining / part : ℕ) ∧ 0 ≤ cnt
  · rw [if_pos (by exact_mod_cast hcount)]
    refine (spelled_fill h cnt.toNat l q').mono fun as r has => ?_
    obtain ⟨hlength, ws, hws, hspells⟩ := has
    refine ⟨ws, hws, ?_⟩
    rw [hlength]
    exact (hcnt hcount.2).append hspells
  · rw [if_neg (by exact_mod_cast hcount)]
    exact .throw

end

/-! ## 3. Expressions -/

section

-- a reader of strings, and whether what it read is spelled
variable {strict : Prop} {str : Reader String}
  (hstr : Spelled strict str Serde.writeString)

include hstr

theorem spelled_getFunctionHeader :
    Spelled strict (Serde.getFunctionHeader str) Serde.writeFunctionHeader := by
  intro l p
  refine (spelled_get strict l p).bind fun type q htype => ?_
  by_cases hnative : type = Serde.FH_NATIVE
  · rw [if_pos hnative]
    refine (spelled_getShort strict l q).map fun n r hn => ?_
    rw [hnative] at htype
    exact htype.append hn
  · rw [if_neg hnative]
    by_cases huser : type = Serde.FH_USER
    · rw [if_pos huser]
      refine (hstr l q).map fun name r hname => ?_
      rw [huser] at htype
      exact htype.append hname
    · rw [if_neg huser]
      exact .throw

omit hstr in
theorem serArgs_of_forall₂ {args : List EXPR} {ws : List ByteStr}
    (h : List.Forall₂ (fun arg w => Serde.serAux arg = .ok w) args ws) :
    Serde.serArgs args = .ok ws.flatten := by
  induction h with
  | nil => rw [Serde.serArgs]; rfl
  | cons hw _ ih => rw [Serde.serArgs, hw, ih]; rfl

omit hstr in
theorem flatMap_of_forall₂ {α : Type} {write : α → ByteStr} {as : List α} {ws : List ByteStr}
    (h : List.Forall₂ (fun a w => (.ok (write a) : Except String ByteStr) = .ok w) as ws) :
    as.flatMap write = ws.flatten := by
  induction h with
  | nil => rfl
  | cons hw _ ih =>
    rw [List.flatMap_cons, List.flatten_cons, ih, Except.ok.inj hw]

/-- A declaration after its kind: what is spelled is the kind and the rest. -/
theorem reads_deserializeDeclaration {aux : Reader EXPR} (haux : SpelledIf strict aux Serde.serAux)
    {l : ByteStr} {start p : ℕ} {decType : Byte} (htype : Spells strict l start p [decType]) :
    Reads (Serde.deserializeDeclaration str aux decType) l p fun d q =>
      ∃ w, Serde.serializeDeclaration d = .ok w ∧ Spells strict l start q w := by
  unfold Serde.deserializeDeclaration
  by_cases hlet : decType = Serde.DEC_LET
  · rw [if_pos hlet]
    refine (hstr l p).bind fun name q hname => (haux l q).bind fun body r hbody => .pure ?_
    obtain ⟨w, hw, hbody⟩ := hbody
    rw [hlet] at htype
    refine ⟨_, ?_, htype.append (hname.append hbody)⟩
    rw [Serde.serializeDeclaration, hw]
    rfl
  · rw [if_neg hlet]
    by_cases hfunc : decType = Serde.DEC_FUNC
    · rw [if_pos hfunc]
      refine (hstr l p).bind fun name q hname => ?_
      refine (spelled_getList hstr.spelledIf _ _ l q).bind fun args q' hargs => ?_
      refine (haux l q').bind fun body r hbody => .pure ?_
      obtain ⟨ws, hws, hargs⟩ := hargs
      obtain ⟨w, hw, hbody⟩ := hbody
      rw [hfunc] at htype
      rw [← flatMap_of_forall₂ hws] at hargs
      refine ⟨_, ?_, htype.append (hname.append (hargs.append hbody))⟩
      rw [Serde.serializeDeclaration, hw]
      rfl
    · rw [if_neg hfunc]
      exact .throw

/-- What follows a tag: what is spelled is the tag and the rest. -/
theorem reads_desTag {des : Reader EXPR} (hdes : SpelledIf strict des Serde.serAux)
    {l : ByteStr} {start p : ℕ} {tag : Byte} (htag : Spells strict l start p [tag]) :
    Reads (Serde.desTag str des tag) l p fun e q =>
      ∃ w, Serde.serAux e = .ok w ∧ Spells strict l start q w := by
  unfold Serde.desTag
  refine .ite (fun h => ?_) fun _ => .ite (fun h => ?_) fun _ => .ite (fun h => ?_) fun _ =>
    .ite (fun h => ?_) fun _ => .ite (fun h => ?_) fun _ => .ite (fun h => ?_) fun _ =>
    .ite (fun h => ?_) fun _ => .ite (fun h => ?_) fun _ => .ite (fun h => ?_) fun _ =>
    .ite (fun h => ?_) fun _ => .ite (fun h => ?_) fun _ => .throw
  all_goals rw [h] at htag
  · -- a long
    exact (spelled_getLong strict l p).map fun n q hn => ⟨_, rfl, htag.append hn⟩
  · -- bytes, if they may be a constant
    refine (spelled_getBytes strict l p).bind fun bs q hbs => ?_
    by_cases hsize : bs.length ≤ DATA_TX_BYTES_MAX
    · rw [EVALUATED.constBytestr, dif_pos hsize]
      exact .pure ⟨_, by rw [Serde.serAux]; rfl, htag.append hbs⟩
    · rw [EVALUATED.constBytestr, dif_neg hsize]
      exact .throw
  · -- a string, if it may be a constant
    refine (hstr l p).bind fun s q hs => ?_
    by_cases hsize : (utf8Bytes s).length ≤ DATA_TX_BYTES_MAX
    · rw [EVALUATED.constString, dif_pos hsize]
      exact .pure ⟨_, by rw [Serde.serAux]; rfl, htag.append hs⟩
    · rw [EVALUATED.constString, dif_neg hsize]
      exact .throw
  · -- a condition
    refine (hdes l p).bind fun cond q hcond => (hdes l q).bind fun ifTrue r htrue =>
      (hdes l r).bind fun ifFalse s hfalse => .pure ?_
    obtain ⟨c, hc, hcond⟩ := hcond
    obtain ⟨t, ht, htrue⟩ := htrue
    obtain ⟨f, hf, hfalse⟩ := hfalse
    refine ⟨_, ?_, htag.append (hcond.append (htrue.append hfalse))⟩
    rw [Serde.serAux, hc, ht, hf]
    rfl
  · -- a constant in an older block
    refine (hstr l p).bind fun name q hname => (hdes l q).bind fun value r hvalue =>
      (hdes l r).bind fun body s hbody => .pure ?_
    obtain ⟨v, hv, hvalue⟩ := hvalue
    obtain ⟨b, hb, hbody⟩ := hbody
    refine ⟨_, ?_, htag.append (hname.append (hvalue.append hbody))⟩
    rw [Serde.serAux, hv, hb]
    rfl
  · -- a block
    refine (spelled_get strict l p).bind fun decType q htype => ?_
    refine (reads_deserializeDeclaration hstr hdes htype).bind fun dec r hdec => ?_
    refine (hdes l r).bind fun body s hbody => .pure ?_
    obtain ⟨d, hd, hdec⟩ := hdec
    obtain ⟨b, hb, hbody⟩ := hbody
    refine ⟨_, ?_, htag.append (hdec.append hbody)⟩
    rw [Serde.serAux, hd, hb]
    rfl
  · -- a reference
    exact (hstr l p).map fun key q hkey => ⟨_, by rw [Serde.serAux], htag.append hkey⟩
  · exact .pure ⟨_, by rw [Serde.serAux]; rfl, htag⟩
  · exact .pure ⟨_, by rw [Serde.serAux]; rfl, htag⟩
  · -- a getter
    refine (hdes l p).bind fun expr q hexpr => (hstr l q).bind fun field r hfield => .pure ?_
    obtain ⟨o, ho, hexpr⟩ := hexpr
    refine ⟨_, ?_, htag.append (hexpr.append hfield)⟩
    rw [Serde.serAux, ho]
    rfl
  · -- a call
    refine (spelled_getFunctionHeader hstr l p).bind fun header q hheader => ?_
    refine (spelled_getList hdes _ _ l q).bind fun args r hargs => .pure ?_
    obtain ⟨ws, hws, hargs⟩ := hargs
    refine ⟨_, ?_, htag.append (hheader.append hargs)⟩
    rw [Serde.serAux, serArgs_of_forall₂ hws]
    rfl

/-- **What is read as an expression can be written, and if strings are spelled it is spelled
as it is written.** -/
theorem spelled_desAux (fuel : ℕ) : SpelledIf strict (Serde.desAux str fuel) Serde.serAux := by
  induction fuel with
  | zero => exact fun _ _ => .throw
  | succ fuel ih =>
    intro l p
    refine (spelled_get strict l p).bind fun tag q htag => ?_
    exact reads_desTag hstr ih htag

end
end Lang
end WavesNode
