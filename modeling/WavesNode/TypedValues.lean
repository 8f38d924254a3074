/-
The values of a type.

An object is of a case type when it has its name, exactly its fields, and in each field a
value of the type that is declared for it.
-/
import WavesNode.EvaluatorV1

set_option autoImplicit false

namespace WavesNode

namespace Lang

/-! ## 1. What a type holds -/

mutual

/-- The values of a real type. -/
def REAL.holds : REAL → EVALUATED → Bool
  | .LONG, .CONST_LONG _ => true
  | .BYTESTR, .CONST_BYTESTR _ => true
  | .BOOLEAN, .CONST_BOOLEAN _ => true
  | .STRING, .CONST_STRING _ => true
  | .LIST t, .ARR xs => xs.all fun x => t.holds x
  | .CASETYPEREF name fields, .CaseObj caseType values =>
    caseType == name && (values.map Prod.fst).all (fields.map Prod.fst).contains
      && holdsFields fields values
  | _, _ => false

/-- The values of a type. -/
def FINAL.holds : FINAL → EVALUATED → Bool
  | .NOTHING, _ => false
  | .real r, v => r.holds v
  | .UNION ts _, v => holdsAny ts v

def holdsAny : List REAL → EVALUATED → Bool
  | [], _ => false
  | t :: ts, v => t.holds v || holdsAny ts v

/-- Every declared field has a value of its type. -/
def holdsFields : List (String × FINAL) → List (String × EVALUATED) → Bool
  | [], _ => true
  | (name, t) :: rest, values =>
    (match EVALUATED.field values name with
      | some v => t.holds v
      | none => false) && holdsFields rest values

end

/-! ## 2. By members and by fields -/

theorem holdsAny_iff {ts : List REAL} {v : EVALUATED} :
    holdsAny ts v = true ↔ ∃ t ∈ ts, t.holds v = true := by
  induction ts with
  | nil => simp [holdsAny]
  | cons t ts ih =>
    rw [holdsAny, Bool.or_eq_true, ih]
    simp

theorem FINAL.holds_iff {t : FINAL} {v : EVALUATED} :
    t.holds v = true ↔ ∃ r ∈ t.typeList, r.holds v = true := by
  cases t with
  | NOTHING => simp [FINAL.holds]
  | real r => simp [FINAL.holds]
  | UNION ts n => rw [FINAL.holds, holdsAny_iff, FINAL.typeList_UNION]

theorem FINAL.holds_create {l : List FINAL} {n : Option String} {v : EVALUATED} :
    (FINAL.create l n).holds v = true ↔ ∃ t ∈ l, t.holds v = true := by
  rw [FINAL.holds_iff]
  constructor
  · rintro ⟨r, hr, hv⟩
    obtain ⟨t, ht, hrt⟩ := FINAL.mem_create.mp hr
    exact ⟨t, ht, FINAL.holds_iff.mpr ⟨r, hrt, hv⟩⟩
  · rintro ⟨t, ht, hv⟩
    obtain ⟨r, hrt, hr⟩ := FINAL.holds_iff.mp hv
    exact ⟨r, FINAL.mem_create.mpr ⟨t, ht, hrt⟩, hr⟩

/-- The field has a value of the type. -/
def FieldHolds (values : List (String × EVALUATED)) (p : String × FINAL) : Prop :=
  ∃ v, EVALUATED.field values p.1 = some v ∧ p.2.holds v = true

theorem holdsFields_iff {fields : List (String × FINAL)} {values : List (String × EVALUATED)} :
    holdsFields fields values = true ↔ ∀ p ∈ fields, FieldHolds values p := by
  induction fields with
  | nil => simp [holdsFields]
  | cons p rest ih =>
    obtain ⟨name, t⟩ := p
    rw [holdsFields, Bool.and_eq_true, ih, List.forall_mem_cons]
    refine and_congr_left fun _ => ?_
    unfold FieldHolds
    cases EVALUATED.field values name <;> simp

attribute [local simp] FINAL.holds REAL.holds

@[simp] theorem holds_LONG_iff {v : EVALUATED} :
    (FINAL.real .LONG).holds v = true ↔ ∃ t, v = .CONST_LONG t := by
  cases v <;> simp

@[simp] theorem holds_BYTESTR_iff {v : EVALUATED} :
    (FINAL.real .BYTESTR).holds v = true ↔ ∃ bs, v = .CONST_BYTESTR bs := by
  cases v <;> simp

@[simp] theorem holds_BOOLEAN_iff {v : EVALUATED} :
    (FINAL.real .BOOLEAN).holds v = true ↔ ∃ b, v = .CONST_BOOLEAN b := by
  cases v <;> simp

@[simp] theorem holds_STRING_iff {v : EVALUATED} :
    (FINAL.real .STRING).holds v = true ↔ ∃ s, v = .CONST_STRING s := by
  cases v <;> simp

@[simp] theorem holds_LIST_iff {t : FINAL} {v : EVALUATED} :
    (FINAL.list t).holds v = true ↔ ∃ xs, v = .ARR xs ∧ ∀ x ∈ xs, t.holds x = true := by
  cases v <;> simp

/-- An object of a case type. -/
theorem holds_CASETYPEREF_iff {name : String} {fields : List (String × FINAL)} {v : EVALUATED} :
    (FINAL.real (.CASETYPEREF name fields)).holds v = true ↔
      ∃ values, v = .CaseObj name values ∧
        (∀ k ∈ values.map Prod.fst, k ∈ fields.map Prod.fst) ∧
        ∀ p ∈ fields, FieldHolds values p := by
  rw [FINAL.holds]
  cases v with
  | CaseObj caseType values =>
    rw [REAL.holds, Bool.and_eq_true, Bool.and_eq_true, holdsFields_iff, List.all_eq_true]
    simp only [beq_iff_eq, List.contains_iff_mem, EVALUATED.CaseObj.injEq, and_assoc]
    constructor
    · rintro ⟨rfl, hkeys, hfields⟩
      exact ⟨values, rfl, rfl, hkeys, hfields⟩
    · rintro ⟨values', rfl, rfl, hkeys, hfields⟩
      exact ⟨rfl, hkeys, hfields⟩
  | CONST_LONG t => simp
  | CONST_BYTESTR bs => simp
  | CONST_STRING s => simp
  | CONST_BOOLEAN b => simp
  | ARR xs => simp

end Lang

end WavesNode
