/-
Signed 64-bit arithmetic, as the virtual machine computes it.

`Long` is `Int64`: sums, negations and products wrap. The lemmas here are the
one bridge from the wrapped word to the integer it stands for: an operation whose
exact result fits the word computes the exact result. Everything above this file
argues in `ℤ` through these lemmas and never unfolds a machine operation.

`addExact` and `longValueExact` are the two checked operations the program calls:
they answer exactly when the exact result fits.
-/
import Mathlib.Tactic.Ring
import Mathlib.Tactic.Linarith
import Mathlib.Algebra.Order.Ring.Int

set_option autoImplicit false

/-- A signed 64-bit machine word. -/
abbrev Long := Int64

/-- A signed 8-bit machine word. -/
abbrev Byte := Int8

/-- Bytes in the order of the integers they stand for. -/
instance : LinearOrder Byte where
  le_refl := Int8.le_refl
  le_trans := fun _ _ _ => Int8.le_trans
  le_antisymm := fun _ _ => Int8.le_antisymm
  le_total := Int8.le_total
  lt_iff_le_not_ge := fun x y => by
    rw [Int8.lt_iff_toInt_lt, Int8.le_iff_toInt_le, Int8.le_iff_toInt_le]
    omega
  toDecidableLE := inferInstance
  toDecidableEq := inferInstance
  toDecidableLT := inferInstance

namespace Long

/-! ## 1. The range of the word -/

/-- The integers a 64-bit word can hold. -/
def InRange (z : ℤ) : Prop := -9223372036854775808 ≤ z ∧ z ≤ 9223372036854775807

instance (z : ℤ) : Decidable (InRange z) := inferInstanceAs (Decidable (_ ∧ _))

/-- The least word. -/
def MinValue : Long := Int64.minValue

/-- The greatest word. -/
def MaxValue : Long := Int64.maxValue

@[simp] theorem toInt_MinValue : MinValue.toInt = -9223372036854775808 := by decide

@[simp] theorem toInt_MaxValue : MaxValue.toInt = 9223372036854775807 := by decide

theorem MaxValue_pos : 0 < MaxValue := by decide

@[simp] theorem toInt_zero : (0 : Long).toInt = 0 := by decide

/-- Every word is in range. -/
theorem inRange_toInt (x : Long) : InRange x.toInt := by
  have hlo := Int64.le_toInt x
  have hhi := Int64.toInt_lt x
  exact ⟨by omega, by omega⟩

theorem toInt_inj {x y : Long} (h : x.toInt = y.toInt) : x = y := Int64.toInt_inj.mp h

/-! ## 2. Wrapped operations that do not wrap -/

private theorem bmod_of_inRange {z : ℤ} (h : InRange z) : Int.bmod z (2 ^ 64) = z := by
  obtain ⟨hlo, hhi⟩ := h
  rw [Int.bmod_eq_of_le] <;> omega

/-- An exact sum that fits is the machine sum. -/
theorem toInt_add {x y : Long} (h : InRange (x.toInt + y.toInt)) :
    (x + y).toInt = x.toInt + y.toInt := by
  rw [Int64.toInt_add, bmod_of_inRange h]

/-- An exact difference that fits is the machine difference. -/
theorem toInt_sub {x y : Long} (h : InRange (x.toInt - y.toInt)) :
    (x - y).toInt = x.toInt - y.toInt := by
  rw [Int64.toInt_sub, bmod_of_inRange h]

/-- An exact product that fits is the machine product. -/
theorem toInt_mul {x y : Long} (h : InRange (x.toInt * y.toInt)) :
    (x * y).toInt = x.toInt * y.toInt := by
  rw [Int64.toInt_mul, bmod_of_inRange h]

/-- Negation is exact except at the least word. -/
theorem toInt_neg {x : Long} (h : InRange (-x.toInt)) : (-x).toInt = -x.toInt := by
  rw [Int64.toInt_neg, bmod_of_inRange h]

/-- A non-negative word negates exactly. -/
theorem toInt_neg_of_nonneg {x : Long} (h : 0 ≤ x.toInt) : (-x).toInt = -x.toInt := by
  obtain ⟨-, hhi⟩ := inRange_toInt x
  exact toInt_neg ⟨by omega, by omega⟩

/-- A positive word negates exactly. -/
theorem toInt_neg_of_pos {x : Long} (h : 0 < x.toInt) : (-x).toInt = -x.toInt :=
  toInt_neg_of_nonneg h.le

/-- Reading an in-range integer into the word and back. -/
theorem toInt_ofInt {z : ℤ} (h : InRange z) : (Int64.ofInt z).toInt = z := by
  rw [Int64.toInt_ofInt, show Int64.size = 2 ^ 64 from rfl, bmod_of_inRange h]

theorem lt_iff {x y : Long} : x < y ↔ x.toInt < y.toInt := Int64.lt_iff_toInt_lt

theorem le_iff {x y : Long} : x ≤ y ↔ x.toInt ≤ y.toInt := Int64.le_iff_toInt_le

theorem eq_iff {x y : Long} : x = y ↔ x.toInt = y.toInt := Int64.toInt_inj.symm

theorem nonneg_iff {x : Long} : 0 ≤ x ↔ 0 ≤ x.toInt := by rw [le_iff, toInt_zero]

theorem pos_iff {x : Long} : 0 < x ↔ 0 < x.toInt := by rw [lt_iff, toInt_zero]

theorem neg_iff {x : Long} : x < 0 ↔ x.toInt < 0 := by rw [lt_iff, toInt_zero]

theorem toInt_max (x y : Long) : (max x y).toInt = max x.toInt y.toInt := by
  have hmax : max x y = if x ≤ y then y else x := rfl
  rw [hmax, Int.max_def]
  by_cases h : x ≤ y
  · rw [if_pos h, if_pos (le_iff.mp h)]
  · rw [if_neg h, if_neg fun hle => h (le_iff.mpr hle)]

/-! ## 3. Checked operations -/

/-- `Math.addExact`: the sum, unless it leaves the word. -/
def addExact (x y : Long) : Option Long :=
  if InRange (x.toInt + y.toInt) then some (x + y) else none

/-- `BigInteger.longValueExact`: the word of an integer, unless it does not fit. -/
def longValueExact (z : ℤ) : Option Long :=
  if InRange z then some (Int64.ofInt z) else none

theorem addExact_eq_some {x y s : Long} :
    addExact x y = some s ↔ InRange (x.toInt + y.toInt) ∧ s.toInt = x.toInt + y.toInt := by
  unfold addExact
  by_cases h : InRange (x.toInt + y.toInt)
  · rw [if_pos h, Option.some.injEq]
    constructor
    · rintro rfl
      exact ⟨h, toInt_add h⟩
    · rintro ⟨-, hs⟩
      exact toInt_inj (by rw [toInt_add h, hs])
  · rw [if_neg h]
    simp [h]

theorem longValueExact_eq_some {z : ℤ} {s : Long} :
    longValueExact z = some s ↔ InRange z ∧ s.toInt = z := by
  unfold longValueExact
  by_cases h : InRange z
  · rw [if_pos h, Option.some.injEq]
    constructor
    · rintro rfl
      exact ⟨h, toInt_ofInt h⟩
    · rintro ⟨-, hs⟩
      exact toInt_inj (by rw [toInt_ofInt h, hs])
  · rw [if_neg h]
    simp [h]

end Long
