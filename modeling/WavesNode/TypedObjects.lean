/-
Objects that are built field by field.

A value of the node is converted for a script, and the conversion may throw. An object is built
from a map of such conversions. It is of a case type when the map has exactly the declared
fields and every conversion gives a value of the type declared for it: a `Record` is a map and a
list of declarations for which this comes down to a condition on the values that are converted.
Records are put together as the maps and the declarations are.
-/
import WavesNode.WavesTypes

set_option autoImplicit false

namespace WavesNode

namespace Lang

/-! ## 1. Conversions -/

/-- What a conversion throws. -/
inductive ConversionError where
  | RuntimeException (message : String)
  | ClassCastException
  deriving DecidableEq

abbrev Conv : Type := Except ConversionError EVALUATED

/-- The conversion gives a value of the type. -/
def Conv.Holds (c : Conv) (t : FINAL) : Prop := ∃ v, c = .ok v ∧ t.holds v = true

@[simp] theorem Conv.holds_ok {v : EVALUATED} {t : FINAL} :
    Conv.Holds (.ok v) t ↔ t.holds v = true := by
  unfold Conv.Holds
  simp

@[simp] theorem Conv.not_holds_error {e : ConversionError} {t : FINAL} :
    ¬ Conv.Holds (.error e) t := by
  rintro ⟨v, h, -⟩
  cases h

theorem Conv.holds_typeList_iff {c : Conv} {t : FINAL} :
    Conv.Holds c t ↔ ∃ r ∈ t.typeList, Conv.Holds c (.real r) := by
  cases c with
  | error e => simp
  | ok v =>
    simp only [Conv.holds_ok]
    exact FINAL.holds_iff

theorem mem_typeList_UNION {l : List REAL} {r : REAL} :
    r ∈ (WavesTypes.UNION l).typeList ↔ r ∈ l := FINAL.mem_create_real

/-- What is converted only to values of a member of a union is of the union when it is of the
member. -/
theorem Conv.holds_member_iff {c : Conv} {t : FINAL} {r : REAL} {P : Prop} (hr : r ∈ t.typeList)
    (hc : Conv.Holds c (.real r) ↔ P) (hok : ∀ v, c = .ok v → P) : Conv.Holds c t ↔ P := by
  constructor
  · rintro ⟨v, hv, -⟩
    exact hok v hv
  · intro hP
    exact Conv.holds_typeList_iff.mpr ⟨r, hr, hc.mpr hP⟩

/-- The conversions of a list. -/
def convAll : List Conv → Except ConversionError (List EVALUATED)
  | [] => .ok []
  | c :: cs => c.bind fun v => (convAll cs).map (v :: ·)

def arr (cs : List Conv) : Conv := (convAll cs).map .ARR

theorem holds_arr_iff {cs : List Conv} {t : FINAL} :
    Conv.Holds (arr cs) (.list t) ↔ ∀ c ∈ cs, Conv.Holds c t := by
  have hall : (∃ vs, convAll cs = .ok vs ∧ ∀ v ∈ vs, t.holds v = true) ↔
      ∀ c ∈ cs, Conv.Holds c t := by
    induction cs with
    | nil => simp [convAll]
    | cons c cs ih =>
      rw [List.forall_mem_cons, ← ih, convAll]
      cases c with
      | error e => simp [Except.bind]
      | ok v => cases convAll cs <;> simp [Except.bind, Except.map]
  rw [← hall]
  unfold arr Conv.Holds
  cases convAll cs with
  | error e => simp [Except.map]
  | ok vs => simp [Except.map]

/-! ## 2. Objects -/

abbrev ConvFields : Type := List (String × Conv)

/-- `Map`, with its values computed. -/
def convFields : ConvFields → Except ConversionError (List (String × EVALUATED))
  | [] => .ok []
  | (key, c) :: rest => c.bind fun v => (convFields rest).map ((key, v) :: ·)

/-- `CASETYPEREF.name`. -/
def REAL.caseName : REAL → String
  | .CASETYPEREF name _ => name
  | _ => ""

/-- `CaseObj(caseType, fields)`. -/
def caseObj (caseType : REAL) (fields : ConvFields) : Conv :=
  (convFields fields).map (.CaseObj caseType.caseName)

/-- `combine`: where two maps have a key, the later one has it. -/
def combine (m0 m1 : ConvFields) : ConvFields :=
  m0.filter (fun p => !(m1.map Prod.fst).contains p.1) ++ m1

theorem convFields_keys {fields : ConvFields} {vs : List (String × EVALUATED)}
    (h : convFields fields = .ok vs) : vs.map Prod.fst = fields.map Prod.fst := by
  induction fields generalizing vs with
  | nil =>
    cases h
    rfl
  | cons p rest ih =>
    obtain ⟨key, c⟩ := p
    rw [convFields] at h
    cases c with
    | error e => cases h
    | ok v =>
      cases hrest : convFields rest with
      | error e =>
        rw [hrest] at h
        cases h
      | ok ws =>
        rw [hrest] at h
        cases h
        rw [List.map_cons, List.map_cons, ih hrest]

theorem convFields_lookup {fields : ConvFields} {vs : List (String × EVALUATED)}
    (h : convFields fields = .ok vs) (k : String) :
    fields.lookup k = (EVALUATED.field vs k).map .ok := by
  unfold EVALUATED.field
  induction fields generalizing vs with
  | nil =>
    cases h
    rfl
  | cons p rest ih =>
    obtain ⟨key, c⟩ := p
    rw [convFields] at h
    cases c with
    | error e => cases h
    | ok v =>
      cases hrest : convFields rest with
      | error e =>
        rw [hrest] at h
        cases h
      | ok ws =>
        rw [hrest] at h
        cases h
        rw [List.lookup_cons, List.lookup_cons]
        cases k == key with
        | true => rfl
        | false => exact ih hrest

theorem convFields_ok {fields : ConvFields} (h : ∀ p ∈ fields, ∃ v, p.2 = .ok v) :
    ∃ vs, convFields fields = .ok vs := by
  induction fields with
  | nil => exact ⟨[], rfl⟩
  | cons p rest ih =>
    obtain ⟨key, c⟩ := p
    rw [List.forall_mem_cons] at h
    obtain ⟨v, hv⟩ := h.1
    obtain ⟨vs, hvs⟩ := ih h.2
    have hv : c = .ok v := hv
    refine ⟨(key, v) :: vs, ?_⟩
    rw [convFields, hv, hvs]
    rfl

/-- An object of a case type has its fields, and no others. -/
theorem keys_of_holds {caseType : REAL} {fields : ConvFields} {name : String}
    {decl : List (String × FINAL)}
    (h : Conv.Holds (caseObj caseType fields) (.real (.CASETYPEREF name decl))) (k : String) :
    k ∈ fields.map Prod.fst ↔ k ∈ decl.map Prod.fst := by
  obtain ⟨v, hv, hholds⟩ := h
  obtain ⟨vs, rfl, hkeys, hfields⟩ := holds_CASETYPEREF_iff.mp hholds
  unfold caseObj at hv
  cases hconv : convFields fields with
  | error e =>
    rw [hconv] at hv
    cases hv
  | ok ws =>
    rw [hconv] at hv
    cases hv
    rw [← convFields_keys hconv]
    refine ⟨hkeys k, fun hk => ?_⟩
    obtain ⟨p, hp, rfl⟩ := List.mem_map.mp hk
    obtain ⟨v, hv, -⟩ := hfields p hp
    by_contra hnot
    have hnone : EVALUATED.field vs p.1 = none := by
      refine List.lookup_eq_none_iff.mpr fun q hq => ?_
      exact bne_iff_ne.mpr fun h => hnot (List.mem_map.mpr ⟨q, hq, h.symm⟩)
    rw [hnone] at hv
    cases hv

/-- An object is only of types of its own name. -/
theorem name_of_holds {caseType r : REAL} {fields : ConvFields}
    (h : Conv.Holds (caseObj caseType fields) (.real r)) : caseType.caseName = r.caseName := by
  obtain ⟨v, hv, hholds⟩ := h
  unfold caseObj at hv
  cases hconv : convFields fields with
  | error e =>
    rw [hconv] at hv
    cases hv
  | ok vs =>
    rw [hconv] at hv
    cases hv
    cases r with
    | CASETYPEREF name decl =>
      obtain ⟨values, heq, -⟩ := holds_CASETYPEREF_iff.mp hholds
      exact (EVALUATED.CaseObj.inj heq).1
    | LONG => simp at hholds
    | BYTESTR => simp at hholds
    | BOOLEAN => simp at hholds
    | STRING => simp at hholds
    | LIST t => simp at hholds

/-- Of types with different names, an object is of the one that it is built of. -/
theorem holds_named_iff {caseType : REAL} {fields : ConvFields} {t : FINAL}
    (hmem : caseType ∈ t.typeList)
    (hnames : ∀ r ∈ t.typeList, r.caseName = caseType.caseName → r = caseType) :
    Conv.Holds (caseObj caseType fields) t ↔
      Conv.Holds (caseObj caseType fields) (.real caseType) := by
  rw [Conv.holds_typeList_iff]
  constructor
  · rintro ⟨r, hr, h⟩
    rw [hnames r hr (name_of_holds h).symm] at h
    exact h
  · intro h
    exact ⟨caseType, hmem, h⟩

/-! ## 3. Records -/

/-- The field is converted to a value of its type. -/
def FieldConv (fields : ConvFields) (p : String × FINAL) : Prop :=
  ∃ c, fields.lookup p.1 = some c ∧ Conv.Holds c p.2

theorem fieldConv_iff {fields : ConvFields} {key : String} {t : FINAL} {c : Conv}
    (h : fields.lookup key = some c) : FieldConv fields (key, t) ↔ Conv.Holds c t := by
  unfold FieldConv
  rw [h]
  simp

/-- The map has the declared fields, and they are of the declared types under the
condition. -/
structure Record (fields : ConvFields) (decl : List (String × FINAL)) (P : Prop) : Prop where
  keys : (fields.map Prod.fst).Perm (decl.map Prod.fst)
  nodup : (decl.map Prod.fst).Nodup
  iff : (∀ p ∈ decl, FieldConv fields p) ↔ P

namespace Record

variable {fields fields' : ConvFields} {decl decl' : List (String × FINAL)} {P P' : Prop}

theorem lookup_of_mem (h : (fields.map Prod.fst).Nodup) {p : String × Conv} (hp : p ∈ fields) :
    fields.lookup p.1 = some p.2 := by
  induction fields with
  | nil => exact absurd hp List.not_mem_nil
  | cons q rest ih =>
    rw [List.map_cons, List.nodup_cons] at h
    rw [List.lookup_cons]
    rcases List.mem_cons.mp hp with rfl | hp
    · rw [beq_self_eq_true]
    · have hne : p.1 ≠ q.1 := fun heq => h.1 (heq ▸ List.mem_map_of_mem hp)
      rw [beq_false_of_ne hne]
      exact ih h.2 hp

/-- The object of a record is of its type under the condition of the record. -/
theorem holds_iff (r : Record fields decl P) (name : String) :
    Conv.Holds (caseObj (.CASETYPEREF name decl) fields) (.real (.CASETYPEREF name decl)) ↔ P := by
  rw [← r.iff]
  constructor
  · rintro ⟨v, hv, hholds⟩ p hp
    obtain ⟨vs, rfl, -, hfields⟩ := holds_CASETYPEREF_iff.mp hholds
    unfold caseObj at hv
    cases hconv : convFields fields with
    | error e =>
      rw [hconv] at hv
      cases hv
    | ok ws =>
      rw [hconv] at hv
      cases hv
      obtain ⟨v, hv, ht⟩ := hfields p hp
      refine ⟨.ok v, ?_, Conv.holds_ok.mpr ht⟩
      rw [convFields_lookup hconv, hv]
      rfl
  · intro h
    have hok : ∀ q ∈ fields, ∃ v, q.2 = .ok v := by
      intro q hq
      obtain ⟨p, hp, hkey⟩ := List.mem_map.mp (r.keys.mem_iff.mp (List.mem_map_of_mem hq))
      obtain ⟨c, hc, v, rfl, -⟩ := h p hp
      have hlookup := lookup_of_mem ((r.keys.nodup_iff).mpr r.nodup) hq
      rw [← hkey, hc, Option.some.injEq] at hlookup
      exact ⟨v, hlookup.symm⟩
    obtain ⟨vs, hvs⟩ := convFields_ok hok
    refine ⟨.CaseObj name vs, ?_, holds_CASETYPEREF_iff.mpr ⟨vs, rfl, ?_, fun p hp => ?_⟩⟩
    · rw [caseObj, hvs]
      rfl
    · intro k hk
      rw [convFields_keys hvs] at hk
      exact r.keys.mem_iff.mp hk
    · obtain ⟨c, hc, v, rfl, ht⟩ := h p hp
      rw [convFields_lookup hvs] at hc
      cases hfield : EVALUATED.field vs p.1 with
      | none =>
        rw [hfield] at hc
        cases hc
      | some v' =>
        rw [hfield] at hc
        cases hc
        exact ⟨v, hfield, ht⟩

/-- The declarations may stand in another order. -/
theorem perm (r : Record fields decl P) (h : decl.Perm decl') : Record fields decl' P where
  keys := r.keys.trans (h.map Prod.fst)
  nodup := ((h.map Prod.fst).nodup_iff).mp r.nodup
  iff := by
    rw [← r.iff]
    exact ⟨fun hp p hmem => hp p (h.mem_iff.mp hmem), fun hp p hmem => hp p (h.mem_iff.mpr hmem)⟩

theorem of_iff (r : Record fields decl P) (h : P ↔ P') : Record fields decl P' :=
  ⟨r.keys, r.nodup, r.iff.trans h⟩

/-- Two maps without a common field. -/
theorem combine (r : Record fields decl P) (r' : Record fields' decl' P')
    (h : ∀ k ∈ decl.map Prod.fst, k ∉ decl'.map Prod.fst) :
    Record (combine fields fields') (decl ++ decl') (P ∧ P') := by
  have hcombine : Lang.combine fields fields' = fields ++ fields' := by
    unfold Lang.combine
    rw [List.filter_eq_self.mpr]
    intro p hp
    have hnot : p.1 ∉ fields'.map Prod.fst := fun hmem =>
      h _ (r.keys.mem_iff.mp (List.mem_map_of_mem hp)) (r'.keys.mem_iff.mp hmem)
    rw [Bool.not_eq_true', ← Bool.not_eq_true, List.contains_iff_mem]
    exact hnot
  have hlookup : ∀ k ∈ decl.map Prod.fst,
      (fields ++ fields').lookup k = fields.lookup k := by
    intro k hk
    have hsome : (fields.lookup k).isSome := by
      rw [List.lookup_isSome_iff]
      obtain ⟨q, hq, rfl⟩ := List.mem_map.mp (r.keys.mem_iff.mpr hk)
      exact ⟨q, hq, beq_self_eq_true _⟩
    rw [List.lookup_append, Option.or_of_isSome hsome]
  have hlookup' : ∀ k ∈ decl'.map Prod.fst,
      (fields ++ fields').lookup k = fields'.lookup k := by
    intro k hk
    have hnone : fields.lookup k = none := by
      refine List.lookup_eq_none_iff.mpr fun q hq => bne_iff_ne.mpr fun heq => ?_
      subst heq
      exact h _ (r.keys.mem_iff.mp (List.mem_map_of_mem hq)) hk
    rw [List.lookup_append, hnone, Option.none_or]
  rw [hcombine]
  refine ⟨?_, ?_, ?_⟩
  · rw [List.map_append, List.map_append]
    exact r.keys.append r'.keys
  · rw [List.map_append]
    exact r.nodup.append r'.nodup h
  · rw [← r.iff, ← r'.iff, List.forall_mem_append]
    refine and_congr (forall₂_congr fun p hp => ?_) (forall₂_congr fun p hp => ?_)
    · unfold FieldConv
      rw [hlookup p.1 (List.mem_map_of_mem hp)]
    · unfold FieldConv
      rw [hlookup' p.1 (List.mem_map_of_mem hp)]

end Record

end Lang

end WavesNode
