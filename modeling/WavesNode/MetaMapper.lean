/-
The types of callable functions, as the metadata of a contract keeps them.

One argument is one byte: a bit for each of the four primitive types, and a union is the sum of
its members. A bit is read back with a mask, and the mask of the n-th type is the n-th power
of ten: 1, 10, 100 and 1000, read as numbers. On a byte below 16 three of them have the one bit
that is asked for. The second, 10, has the bit of the fourth type too, and then the second type
is not found.
-/
import WavesNode.Long
import WavesNode.TypeInferrer

set_option autoImplicit false

namespace WavesNode

namespace Lang

namespace MetaMapperStrategyV1

/-! ## 1. The two directions -/

/-- `CallableFuncSignature`: a byte for each argument. -/
structure CallableFuncSignature where
  types : List Byte

/-- `DAppMeta`. -/
structure DAppMeta where
  version : ℤ
  funcs : List CallableFuncSignature

def definedTypes : List REAL := [.LONG, .BYTESTR, .BOOLEAN, .STRING]

/-- `typeOrder`, of a type that is defined. -/
def typeOrder (t : REAL) : ℕ := definedTypes.idxOf t

def mapSingleType (t : FINAL) : Except String ℤ :=
  match t with
  | .real .LONG => .ok (1 <<< typeOrder .LONG)
  | .real .BYTESTR => .ok (1 <<< typeOrder .BYTESTR)
  | .real .BOOLEAN => .ok (1 <<< typeOrder .BOOLEAN)
  | .real .STRING => .ok (1 <<< typeOrder .STRING)
  | argType => .error s!"Unexpected callable func arg type: {argType.name}"

def mapType (t : FINAL) : Except String Byte :=
  let result :=
    match t with
    | .UNION types _ => List.sum <$> types.mapM fun r => mapSingleType (.real r)
    | argType => mapSingleType argType
  Int8.ofInt <$> result

def funcToProto (types : List FINAL) : Except String CallableFuncSignature :=
  CallableFuncSignature.mk <$> types.mapM mapType

def toProto (funcTypes : List (List FINAL)) : Except String DAppMeta :=
  DAppMeta.mk 1 <$> funcTypes.mapM funcToProto

/-- `checkTypeExistence`; the byte is not negative where this is asked. -/
def checkTypeExistence (b : Byte) (t : REAL) : Option REAL :=
  let order := typeOrder t
  if (b.toInt.toNat &&& 10 ^ order) >>> order = 1 then some t else none

def buildType (b : Byte) : Except String FINAL :=
  if b.toInt > 15 ∨ b.toInt < 1 then .error "Illegal callable func arg type bits"
  else
    match definedTypes.filterMap (checkTypeExistence b) with
    | [single] => .ok (.real single)
    | [] => .error "Unexpected callable func arg type absence"
    | l => .ok (.UNION l none)

def protoToFunc (funcs : CallableFuncSignature) : Except String (List FINAL) :=
  funcs.types.mapM buildType

def fromProto (meta_ : DAppMeta) : Except String (List (List FINAL)) :=
  meta_.funcs.mapM protoToFunc

/-! ## 2. What a callable function may take -/

/-- A primitive type, or a union of distinct ones. -/
def ArgType (t : FINAL) : Prop :=
  t ≠ .NOTHING ∧ t.typeList.Nodup ∧ ∀ r ∈ t.typeList, r ∈ definedTypes

/-- The type is read back as it was. -/
def Readable (t : FINAL) : Prop :=
  t.typeList ≠ [] ∧ ¬ (REAL.BYTESTR ∈ t.typeList ∧ REAL.STRING ∈ t.typeList)

instance (t : FINAL) : Decidable (Readable t) := inferInstanceAs (Decidable (_ ∧ _))

/-- The signatures come back, each argument as a type with the same members. -/
def RoundTrip (sigs : List (List FINAL)) : Prop :=
  ∃ meta_ out, toProto sigs = .ok meta_ ∧ fromProto meta_ = .ok out ∧
    List.Forall₂ (List.Forall₂ fun s t => FINAL.equivalent s t = true) sigs out

/-! ## 3. One argument -/

/-- The bit of a type. -/
def bit (r : REAL) : ℤ := 1 <<< typeOrder r

theorem mapSingleType_of_mem {r : REAL} (hr : r ∈ definedTypes) :
    mapSingleType (.real r) = .ok (bit r) := by
  simp only [definedTypes, List.mem_cons, List.not_mem_nil, or_false] at hr
  rcases hr with rfl | rfl | rfl | rfl <;> rfl

theorem mapM_mapSingleType {ts : List REAL} (hts : ∀ r ∈ ts, r ∈ definedTypes) :
    ts.mapM (fun r => mapSingleType (.real r)) = .ok (ts.map bit) := by
  induction ts with
  | nil => rfl
  | cons r ts ih =>
    rw [List.mapM_cons, mapSingleType_of_mem (hts r List.mem_cons_self),
      ih fun s hs => hts s (List.mem_cons_of_mem r hs)]
    rfl

/-- The primitive types that are chosen, in the order of their bits. -/
def select (l b o s : Bool) : List REAL :=
  (if l then [.LONG] else []) ++ (if b then [.BYTESTR] else []) ++
    (if o then [.BOOLEAN] else []) ++ (if s then [.STRING] else [])

/-- The members of a type, in the order of their bits. -/
def sorted (ts : List REAL) : List REAL :=
  select (.LONG ∈ ts) (.BYTESTR ∈ ts) (.BOOLEAN ∈ ts) (.STRING ∈ ts)

theorem mem_select {l b o s : Bool} {r : REAL} :
    r ∈ select l b o s ↔ (r = .LONG ∧ l = true) ∨ (r = .BYTESTR ∧ b = true) ∨
      (r = .BOOLEAN ∧ o = true) ∨ (r = .STRING ∧ s = true) := by
  cases l <;> cases b <;> cases o <;> cases s <;> simp [select]

theorem select_nodup (l b o s : Bool) : (select l b o s).Nodup := by
  cases l <;> cases b <;> cases o <;> cases s <;> decide +kernel

theorem sorted_perm {ts : List REAL} (hnodup : ts.Nodup) (hts : ∀ r ∈ ts, r ∈ definedTypes) :
    List.Perm (sorted ts) ts := by
  refine (List.perm_ext_iff_of_nodup (select_nodup _ _ _ _) hnodup).mpr fun r => ?_
  rw [mem_select]
  simp only [decide_eq_true_eq]
  constructor
  · rintro (⟨rfl, h⟩ | ⟨rfl, h⟩ | ⟨rfl, h⟩ | ⟨rfl, h⟩)
    all_goals exact h
  · intro h
    have hr := hts r h
    simp only [definedTypes, List.mem_cons, List.not_mem_nil, or_false] at hr
    rcases hr with rfl | rfl | rfl | rfl
    · exact .inl ⟨rfl, h⟩
    · exact .inr (.inl ⟨rfl, h⟩)
    · exact .inr (.inr (.inl ⟨rfl, h⟩))
    · exact .inr (.inr (.inr ⟨rfl, h⟩))

/-- The byte of primitive types. -/
def byteOf (ts : List REAL) : Byte := Int8.ofInt (ts.map bit).sum

theorem mapType_eq {t : FINAL} (ht : ArgType t) :
    mapType t = .ok (byteOf (sorted t.typeList)) := by
  obtain ⟨hnothing, hnodup, hts⟩ := ht
  have hsum : ((sorted t.typeList).map bit).sum = (t.typeList.map bit).sum :=
    ((sorted_perm hnodup hts).map bit).sum_eq
  unfold byteOf
  rw [hsum]
  cases t with
  | NOTHING => exact absurd rfl hnothing
  | real r =>
    have hr := mapSingleType_of_mem (hts r (List.mem_singleton_self r))
    simp only [mapType, hr, FINAL.typeList_real, List.map_cons, List.map_nil, List.sum_cons,
      List.sum_nil, add_zero]
    rfl
  | UNION ts n =>
    have hsums := mapM_mapSingleType hts
    rw [FINAL.typeList_UNION] at hsums
    simp only [mapType, hsums]
    rfl

/-- The types that are found in a byte: the second one is missed where the fourth one is. -/
theorem filterMap_checkTypeExistence (l b o s : Bool) :
    definedTypes.filterMap (checkTypeExistence (byteOf (select l b o s))) =
      select l (b && !s) o s := by
  cases l <;> cases b <;> cases o <;> cases s <;> decide +kernel

theorem byteOf_range (l b o s : Bool) :
    ((byteOf (select l b o s)).toInt > 15 ∨ (byteOf (select l b o s)).toInt < 1) ↔
      select l b o s = [] := by
  cases l <;> cases b <;> cases o <;> cases s <;> decide +kernel

/-- A byte is read back as a type with these members, unless it has none. -/
theorem buildType_byteOf (l b o s : Bool) :
    (select l b o s = [] ∧ ∃ e, buildType (byteOf (select l b o s)) = .error e) ∨
      (select l b o s ≠ [] ∧ ∃ t, buildType (byteOf (select l b o s)) = .ok t ∧
        t.typeList = select l (b && !s) o s) := by
  unfold buildType
  rw [filterMap_checkTypeExistence]
  by_cases hempty : select l b o s = []
  · rw [if_pos ((byteOf_range l b o s).mpr hempty)]
    exact .inl ⟨hempty, _, rfl⟩
  · rw [if_neg (mt (byteOf_range l b o s).mp hempty)]
    refine .inr ⟨hempty, ?_⟩
    split
    · rename_i single hsingle
      exact ⟨_, rfl, hsingle.symm⟩
    · rename_i hnone
      -- where the second type is missed, the fourth is found
      refine absurd ?_ hempty
      rw [← List.isEmpty_iff] at hnone ⊢
      revert hnone
      cases l <;> cases b <;> cases o <;> cases s <;> decide
    · exact ⟨_, rfl, rfl⟩

/-- **One argument comes back** when its type has a member, and not both byte vectors and
texts. -/
theorem buildType_equivalent_iff {t : FINAL} (ht : ArgType t) :
    (∃ b u, mapType t = .ok b ∧ buildType b = .ok u ∧ FINAL.equivalent t u = true) ↔
      Readable t := by
  have hperm := sorted_perm ht.2.1 ht.2.2
  have hmem (r : REAL) : r ∈ sorted t.typeList ↔ r ∈ t.typeList := hperm.mem_iff
  have hnil : sorted t.typeList = [] ↔ t.typeList = [] := by
    constructor
    · intro h
      rw [h] at hperm
      exact hperm.nil_eq.symm
    · intro h
      rw [h] at hperm ⊢
      exact hperm.eq_nil
  rw [mapType_eq ht]
  rcases buildType_byteOf (.LONG ∈ t.typeList) (.BYTESTR ∈ t.typeList) (.BOOLEAN ∈ t.typeList)
    (.STRING ∈ t.typeList) with ⟨hempty, e, he⟩ | ⟨hne, u, hu, hmembers⟩
  · -- a union of nothing is refused
    refine iff_of_false ?_ fun h => h.1 (hnil.mp hempty)
    rintro ⟨b, u, hb, hu, -⟩
    obtain rfl := Except.ok.inj hb
    have hu' := hu.symm.trans he
    cases hu'
  · have hequiv : FINAL.equivalent t u = true ↔
        ¬ (REAL.BYTESTR ∈ t.typeList ∧ REAL.STRING ∈ t.typeList) := by
      rw [FINAL.equivalent_iff, hmembers]
      constructor
      · rintro h ⟨hb, hs⟩
        have hfound := (h .BYTESTR).mp hb
        rw [mem_select] at hfound
        simp [hs] at hfound
      · intro hboth r
        rw [← hmem r]
        unfold sorted
        by_cases hs : REAL.STRING ∈ t.typeList
        · have hb : REAL.BYTESTR ∉ t.typeList := fun hb => hboth ⟨hb, hs⟩
          simp [hb]
        · simp [hs]
    constructor
    · rintro ⟨b, u', hb, hu', hsame⟩
      obtain rfl := Except.ok.inj hb
      obtain rfl := Except.ok.inj (hu.symm.trans hu')
      exact ⟨fun h => hne (hnil.mpr h), hequiv.mp hsame⟩
    · intro h
      exact ⟨_, u, rfl, hu, hequiv.mpr h.2⟩

/-! ## 4. Lists of arguments -/

/-- Two passes over a list give a list related to it when they do so at each place. -/
theorem mapM_mapM_iff {ε α β : Type} {f : α → Except ε β} {g : β → Except ε α}
    {R : α → α → Prop} {l : List α} :
    (∃ bs out, l.mapM f = .ok bs ∧ bs.mapM g = .ok out ∧ List.Forall₂ R l out) ↔
      ∀ a ∈ l, ∃ b u, f a = .ok b ∧ g b = .ok u ∧ R a u := by
  induction l with
  | nil =>
    simp only [List.not_mem_nil, false_implies, implies_true, iff_true]
    exact ⟨[], [], rfl, rfl, .nil⟩
  | cons a as ih =>
    rw [List.forall_mem_cons, ← ih]
    constructor
    · rintro ⟨bs, out, hf, hg, hR⟩
      rw [List.mapM_cons] at hf
      cases ha : f a with
      | error e =>
        rw [ha] at hf
        cases hf
      | ok b =>
        cases has : as.mapM f with
        | error e =>
          rw [ha, has] at hf
          cases hf
        | ok bs' =>
          rw [ha, has] at hf
          obtain rfl := Except.ok.inj hf
          rw [List.mapM_cons] at hg
          cases hb : g b with
          | error e =>
            rw [hb] at hg
            cases hg
          | ok u =>
            cases hbs : bs'.mapM g with
            | error e =>
              rw [hb, hbs] at hg
              cases hg
            | ok us =>
              rw [hb, hbs] at hg
              obtain rfl := Except.ok.inj hg
              obtain ⟨hRa, hRas⟩ := List.forall₂_cons.mp hR
              exact ⟨⟨b, u, rfl, hb, hRa⟩, bs', us, rfl, hbs, hRas⟩
    · rintro ⟨⟨b, u, ha, hb, hRa⟩, bs, us, has, hbs, hRas⟩
      refine ⟨b :: bs, u :: us, ?_, ?_, .cons hRa hRas⟩
      · rw [List.mapM_cons, ha, has]
        rfl
      · rw [List.mapM_cons, hb, hbs]
        rfl

private theorem map_eq_ok {α β : Type} {x : Except String α} {f : α → β} {b : β} :
    f <$> x = .ok b ↔ ∃ a, x = .ok a ∧ f a = b := by
  cases x with
  | error e =>
    constructor
    · intro h
      cases h
    · rintro ⟨a, ha, -⟩
      cases ha
  | ok a =>
    constructor
    · intro h
      exact ⟨a, rfl, Except.ok.inj h⟩
    · rintro ⟨a', ha, rfl⟩
      rw [Except.ok.inj ha]
      rfl

theorem funcToProto_equivalent_iff {f : List FINAL} (hf : ∀ t ∈ f, ArgType t) :
    (∃ b u, funcToProto f = .ok b ∧ protoToFunc b = .ok u ∧
      List.Forall₂ (fun s t => FINAL.equivalent s t = true) f u) ↔ ∀ t ∈ f, Readable t := by
  have hpasses := mapM_mapM_iff (f := mapType) (g := buildType)
    (R := fun s t => FINAL.equivalent s t = true) (l := f)
  constructor
  · rintro ⟨b, u, hb, hu, hsame⟩ t ht
    obtain ⟨bytes, hbytes, rfl⟩ := map_eq_ok.mp hb
    exact (buildType_equivalent_iff (hf t ht)).mp (hpasses.mp ⟨bytes, u, hbytes, hu, hsame⟩ t ht)
  · intro hall
    obtain ⟨bytes, u, hbytes, hu, hsame⟩ := hpasses.mpr
      fun t ht => (buildType_equivalent_iff (hf t ht)).mpr (hall t ht)
    exact ⟨⟨bytes⟩, u, map_eq_ok.mpr ⟨bytes, hbytes, rfl⟩, hu, hsame⟩

/-- **The metadata come back** exactly when no argument is a union of byte vectors and texts
among others, or of nothing. -/
theorem roundTrip_iff {sigs : List (List FINAL)} (hsigs : ∀ f ∈ sigs, ∀ t ∈ f, ArgType t) :
    RoundTrip sigs ↔ ∀ f ∈ sigs, ∀ t ∈ f, Readable t := by
  have hpasses := mapM_mapM_iff (f := funcToProto) (g := protoToFunc)
    (R := List.Forall₂ fun s t => FINAL.equivalent s t = true) (l := sigs)
  constructor
  · rintro ⟨meta_, out, hmeta, hout, hsame⟩ f hf
    obtain ⟨funcs, hfuncs, rfl⟩ := map_eq_ok.mp hmeta
    exact (funcToProto_equivalent_iff (hsigs f hf)).mp
      (hpasses.mp ⟨funcs, out, hfuncs, hout, hsame⟩ f hf)
  · intro hall
    obtain ⟨funcs, out, hfuncs, hout, hsame⟩ := hpasses.mpr
      fun f hf => (funcToProto_equivalent_iff (hsigs f hf)).mpr (hall f hf)
    exact ⟨⟨1, funcs⟩, out, map_eq_ok.mpr ⟨funcs, hfuncs, rfl⟩, hout, hsame⟩

/-- One function of a number, and of a number or a text. -/
def numberAndUnion : List (List FINAL) := [[.real .LONG, .UNION [.LONG, .STRING] none]]

theorem roundTrip_numberAndUnion :
    RoundTrip numberAndUnion ↔ ∀ f ∈ numberAndUnion, ∀ t ∈ f, Readable t := by
  refine roundTrip_iff ?_
  simp only [numberAndUnion, forall_eq, List.mem_cons, List.not_mem_nil, or_false,
    forall_eq_or_imp]
  refine ⟨⟨by simp, by simp, ?_⟩, ⟨by simp, by simp, ?_⟩⟩
  · simp [definedTypes]
  · simp [definedTypes]

/-- A byte vector or a text. -/
def vectorOrText : FINAL := .UNION [.BYTESTR, .STRING] none

/-- A byte vector or a text comes back as a text. -/
theorem not_roundTrip_vectorOrText :
    (∀ f ∈ [[vectorOrText]], ∀ t ∈ f, ArgType t) ∧ ¬ RoundTrip [[vectorOrText]] ∧
      ∃ u, mapType vectorOrText = .ok 10 ∧ buildType 10 = .ok u ∧ u.typeList = [.STRING] := by
  have harg : ArgType vectorOrText :=
    ⟨by simp [vectorOrText], by simp [vectorOrText], by simp [vectorOrText, definedTypes]⟩
  have hbyte : byteOf (sorted vectorOrText.typeList) = 10 := by
    decide +kernel
  have hmap := mapType_eq harg
  rw [hbyte] at hmap
  have hread := (buildType_byteOf false true false true).resolve_left fun h => by simp [select] at h
  obtain ⟨-, u, hu, hmembers⟩ := hread
  have hbits : byteOf (select false true false true) = 10 := by
    decide +kernel
  rw [hbits] at hu
  refine ⟨by simpa using harg, ?_, u, hmap, hu, hmembers⟩
  rintro ⟨meta_, out, hmeta, hout, hsame⟩
  obtain ⟨funcs, hfuncs, rfl⟩ := map_eq_ok.mp hmeta
  have hpasses := mapM_mapM_iff.mp ⟨funcs, out, hfuncs, hout, hsame⟩ [vectorOrText]
    List.mem_cons_self
  have hreadable := (funcToProto_equivalent_iff (by simpa using harg)).mp hpasses vectorOrText
    List.mem_cons_self
  exact hreadable.2 ⟨List.mem_cons_self, List.mem_cons_of_mem _ List.mem_cons_self⟩

end MetaMapperStrategyV1

end Lang

end WavesNode
