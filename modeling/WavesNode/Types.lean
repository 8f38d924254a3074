/-
The types of the language.

A type is nothing, one real type, or a union of real types. A union is a list with an
optional name: two unions that list the same members in another order, or under another
name, are different types. `>=` compares a union with anything else by its members, and a
list with a list by what the lists hold.
-/
import Mathlib.Data.List.Basic
import Mathlib.Order.Basic

set_option autoImplicit false

namespace WavesNode

namespace Lang

/-! ## 1. The types -/

mutual

/-- `REAL`: what a member of a union may be. -/
inductive REAL where
  | LONG
  | BYTESTR
  | BOOLEAN
  | STRING
  | LIST (innerType : FINAL)
  | CASETYPEREF (name : String) (fields : List (String × FINAL))

/-- `FINAL`. -/
inductive FINAL where
  | NOTHING
  | real (r : REAL)
  | UNION (typeList : List REAL) (n : Option String)

end

/-! ## 2. Equality

A case class is equal to another field by field. -/

mutual

def REAL.same : REAL → REAL → Bool
  | .LONG, .LONG | .BYTESTR, .BYTESTR | .BOOLEAN, .BOOLEAN | .STRING, .STRING => true
  | .LIST s, .LIST t => s.same t
  | .CASETYPEREF m xs, .CASETYPEREF n ys => m == n && sameFields xs ys
  | _, _ => false

def FINAL.same : FINAL → FINAL → Bool
  | .NOTHING, .NOTHING => true
  | .real r, .real s => r.same s
  | .UNION xs m, .UNION ys n => sameTypes xs ys && m == n
  | _, _ => false

def sameTypes : List REAL → List REAL → Bool
  | [], [] => true
  | x :: xs, y :: ys => x.same y && sameTypes xs ys
  | _, _ => false

def sameFields : List (String × FINAL) → List (String × FINAL) → Bool
  | [], [] => true
  | (m, s) :: xs, (n, t) :: ys => m == n && s.same t && sameFields xs ys
  | _, _ => false

end

mutual

theorem REAL.same_iff : ∀ a b : REAL, a.same b = true ↔ a = b
  | .LONG, b | .BYTESTR, b | .BOOLEAN, b | .STRING, b => by cases b <;> simp [REAL.same]
  | .LIST s, b => by cases b <;> simp [REAL.same, FINAL.same_iff s]
  | .CASETYPEREF m xs, b => by cases b <;> simp [REAL.same, sameFields_iff xs]

theorem FINAL.same_iff : ∀ a b : FINAL, a.same b = true ↔ a = b
  | .NOTHING, b => by cases b <;> simp [FINAL.same]
  | .real r, b => by cases b <;> simp [FINAL.same, REAL.same_iff r]
  | .UNION xs m, b => by cases b <;> simp [FINAL.same, sameTypes_iff xs]

theorem sameTypes_iff : ∀ xs ys : List REAL, sameTypes xs ys = true ↔ xs = ys
  | [], ys => by cases ys <;> simp [sameTypes]
  | x :: xs, ys => by cases ys <;> simp [sameTypes, REAL.same_iff x, sameTypes_iff xs]

theorem sameFields_iff : ∀ xs ys : List (String × FINAL), sameFields xs ys = true ↔ xs = ys
  | [], ys => by cases ys <;> simp [sameFields]
  | (m, s) :: xs, [] => by simp [sameFields]
  | (m, s) :: xs, (n, t) :: ys => by
    simp [sameFields, FINAL.same_iff s, sameFields_iff xs]

end

instance : DecidableEq REAL := fun a b => decidable_of_iff _ (REAL.same_iff a b)

instance : DecidableEq FINAL := fun a b => decidable_of_iff _ (FINAL.same_iff a b)

/-! ## 3. Members -/

namespace FINAL

/-- The type of lists, as a type of its own. -/
@[match_pattern] abbrev list (innerType : FINAL) : FINAL := .real (.LIST innerType)

/-- `typeList`. -/
def typeList : FINAL → List REAL
  | .NOTHING => []
  | .real r => [r]
  | .UNION ts _ => ts

@[simp] theorem typeList_NOTHING : FINAL.NOTHING.typeList = [] := rfl

@[simp] theorem typeList_real (r : REAL) : (FINAL.real r).typeList = [r] := rfl

@[simp] theorem typeList_UNION (ts : List REAL) (n : Option String) :
    (FINAL.UNION ts n).typeList = ts := rfl

/-- `UNION.create`: the members of the types, each once. -/
def create (l : List FINAL) (n : Option String) : FINAL :=
  .UNION (l.flatMap typeList).eraseDups n

theorem mem_create {l : List FINAL} {n : Option String} {r : REAL} :
    r ∈ (create l n).typeList ↔ ∃ t ∈ l, r ∈ t.typeList := by
  rw [create, typeList_UNION, List.mem_eraseDups, List.mem_flatMap]

theorem mem_create_real {l : List REAL} {n : Option String} {r : REAL} :
    r ∈ (create (l.map .real) n).typeList ↔ r ∈ l := by
  rw [mem_create]
  simp

/-! ## 4. The order -/

/-- `equivalent`: the same members. -/
def equivalent (l1 l2 : FINAL) : Bool :=
  l1.typeList.all (· ∈ l2.typeList) && l2.typeList.all (· ∈ l1.typeList)

/-- `>=`. -/
def ge : FINAL → FINAL → Bool
  | .UNION ts _, .UNION us _ => us.all (· ∈ ts)
  | _, .NOTHING => true
  | .NOTHING, _ => false
  | .real (.LIST t1), .real (.LIST t2) => t1.ge t2
  | l1, l2 => l2.typeList.all (· ∈ l1.typeList)

theorem equivalent_iff {a b : FINAL} :
    a.equivalent b = true ↔ ∀ r, r ∈ a.typeList ↔ r ∈ b.typeList := by
  unfold equivalent
  rw [Bool.and_eq_true, List.all_eq_true, List.all_eq_true]
  simp only [decide_eq_true_eq]
  constructor
  · rintro ⟨hab, hba⟩ r
    exact ⟨hab r, hba r⟩
  · intro h
    exact ⟨fun r hr => (h r).mp hr, fun r hr => (h r).mpr hr⟩

@[simp] theorem ge_NOTHING (a : FINAL) : a.ge .NOTHING = true := by
  cases a <;> rfl

theorem NOTHING_ge {b : FINAL} (hb : b ≠ .NOTHING) : FINAL.NOTHING.ge b = false := by
  cases b with
  | NOTHING => exact absurd rfl hb
  | real r => rfl
  | UNION ts n => rfl

@[simp] theorem ge_list (s t : FINAL) : (FINAL.list s).ge (.list t) = s.ge t := rfl

/-- `>=` on anything but nothing and two lists. -/
theorem ge_eq_members {a b : FINAL} (ha : a ≠ .NOTHING) (hb : b ≠ .NOTHING)
    (hlist : ∀ s t, a = .list s → b ≠ .list t) :
    a.ge b = b.typeList.all fun r => decide (r ∈ a.typeList) := by
  unfold ge
  split
  · rfl
  · exact absurd rfl hb
  · exact absurd rfl ha
  · exact absurd rfl (hlist _ _ rfl)
  · rfl

/-- A type is a list of something, or it is not. -/
theorem list_cases (t : FINAL) : (∃ s, t = .list s) ∨ ∀ s, t ≠ .list s := by
  by_cases h : ∃ s, t = .list s
  · exact .inl h
  · exact .inr fun s hs => h ⟨s, hs⟩

/-- Induction over the lists that a type is wrapped in. -/
@[elab_as_elim]
theorem list_induction {P : FINAL → Prop} (other : ∀ t, (∀ s, t ≠ .list s) → P t)
    (list : ∀ s, P s → P (.list s)) : ∀ t, P t
  | .NOTHING => other _ fun _ h => by cases h
  | .UNION _ _ => other _ fun _ h => by cases h
  | .real .LONG => other _ fun _ h => by cases h
  | .real .BYTESTR => other _ fun _ h => by cases h
  | .real .BOOLEAN => other _ fun _ h => by cases h
  | .real .STRING => other _ fun _ h => by cases h
  | .real (.CASETYPEREF _ _) => other _ fun _ h => by cases h
  | .real (.LIST s) => list s (list_induction other list s)

/-! ## 5. The common type

The members of two unions are put together as a set. What the elements of a set are listed
in is not said: the two conditionals of one program may list one set differently. -/

/-- The order in which the elements of a set of types are listed. -/
class SetOrder where
  toSeq : List REAL → List REAL
  mem_toSeq : ∀ l r, r ∈ toSeq l ↔ r ∈ l

/-- The order of insertion lists what was put in. -/
theorem mem_id (l : List REAL) (r : REAL) : r ∈ id l ↔ r ∈ l := Iff.rfl

variable [SetOrder]

/-- `findCommonType`, of the two branches of a conditional. -/
def findCommonType : FINAL → FINAL → FINAL
  | t1, .NOTHING => t1
  | .NOTHING, t2 => t2
  | t1, t2 =>
    if t1 = t2 then t1 else
      match t1, t2 with
      | .real (.LIST it1), .real (.LIST it2) => .list (findCommonType it1 it2)
      | .UNION r _, .UNION a _ => create ((SetOrder.toSeq (r ++ a)).map .real) none
      | .UNION u n, .real t => if t ∈ u then .UNION u n else create ((u ++ [t]).map .real) none
      | .real t, .UNION u n => if t ∈ u then .UNION u n else create ((u ++ [t]).map .real) none
      | p1, p2 => create [p1, p2] none

end FINAL

end Lang

end WavesNode
