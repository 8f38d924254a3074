/-
Numbers written with digits, the highest first.

`value` reads a list of digits, zeros in front included. What the zeros leave, `significant`,
is the one way to write the number without them, so two lists of the same value differ in
their zeros only. The digits below are those of the library of natural numbers, which has them
the other way round.
-/
import Mathlib.Data.List.GetD
import Mathlib.Data.Nat.Digits.Lemmas

set_option autoImplicit false

namespace Radix

variable {base : ℕ} {l m : List ℕ}

/-! ## 1. The value of a list of digits -/

/-- The number that a list of digits is read as. -/
def value (base : ℕ) (l : List ℕ) : ℕ := Nat.ofDigits base l.reverse

@[simp] theorem value_nil (base : ℕ) : value base [] = 0 := rfl

theorem value_append (base : ℕ) (l m : List ℕ) :
    value base (l ++ m) = value base l * base ^ m.length + value base m := by
  rw [value, List.reverse_append, Nat.ofDigits_append, List.length_reverse, value, value]
  ring

@[simp] theorem value_singleton (base d : ℕ) : value base [d] = d := Nat.ofDigits_singleton

theorem value_concat (base : ℕ) (l : List ℕ) (d : ℕ) :
    value base (l ++ [d]) = value base l * base + d := by
  rw [value_append, value_singleton, List.length_singleton, pow_one]

theorem value_cons (base d : ℕ) (l : List ℕ) :
    value base (d :: l) = d * base ^ l.length + value base l := by
  rw [← List.singleton_append, value_append, value_singleton]

theorem value_replicate_zero (base k : ℕ) : value base (List.replicate k 0) = 0 := by
  induction k with
  | zero => rfl
  | succ k ih =>
    rw [List.replicate_succ, value_cons, ih]
    omega

theorem value_lt (hbase : 1 < base) (hl : ∀ d ∈ l, d < base) : value base l < base ^ l.length := by
  have hlt := Nat.ofDigits_lt_base_pow_length hbase (l := l.reverse) fun d hd =>
    hl d (List.mem_reverse.mp hd)
  rw [List.length_reverse] at hlt
  exact hlt

/-- A first digit that is not zero weighs as much as its place. -/
theorem pow_le_value {d : ℕ} (hd : d ≠ 0) : base ^ l.length ≤ value base (d :: l) := by
  rw [value_cons]
  have hle := Nat.mul_le_mul_right (base ^ l.length) (Nat.one_le_iff_ne_zero.mpr hd)
  omega

/-- One more digit of a list. -/
theorem value_take_succ (base : ℕ) {n : ℕ} (h : n < l.length) :
    value base (l.take (n + 1)) = value base (l.take n) * base + l.getD n 0 := by
  rw [List.take_succ_eq_append_getElem h, value_concat, List.getD_eq_getElem _ _ h]

theorem value_take_eq_zero (base : ℕ) {n : ℕ} (hn : n ≤ l.length)
    (h : ∀ i < n, l.getD i 0 = 0) : value base (l.take n) = 0 := by
  induction n with
  | zero => rfl
  | succ n ih =>
    rw [value_take_succ base (by omega), ih (by omega) fun i hi => h i (by omega),
      h n (by omega)]
    omega

/-! ## 2. The zeros in front -/

/-- The number of zeros in front. -/
def zeros (l : List ℕ) : ℕ := (l.takeWhile (· == 0)).length

/-- What follows the zeros in front. -/
def significant (l : List ℕ) : List ℕ := l.dropWhile (· == 0)

@[simp] theorem zeros_cons_zero (l : List ℕ) : zeros (0 :: l) = zeros l + 1 := rfl

@[simp] theorem significant_cons_zero (l : List ℕ) : significant (0 :: l) = significant l := rfl

theorem zeros_cons_of_ne {d : ℕ} (hd : d ≠ 0) (l : List ℕ) : zeros (d :: l) = 0 := by
  rw [zeros, List.takeWhile_cons_of_neg (by simpa using hd)]
  rfl

theorem significant_cons_of_ne {d : ℕ} (hd : d ≠ 0) (l : List ℕ) :
    significant (d :: l) = d :: l :=
  List.dropWhile_cons_of_neg (by simpa using hd)

theorem drop_zeros (l : List ℕ) : l.drop (zeros l) = significant l := by
  induction l with
  | nil => rfl
  | cons d l ih =>
    by_cases hd : d = 0
    · rw [hd, zeros_cons_zero, significant_cons_zero]
      exact ih
    · rw [zeros_cons_of_ne hd, significant_cons_of_ne hd]
      rfl

theorem replicate_append_significant (l : List ℕ) :
    List.replicate (zeros l) 0 ++ significant l = l := by
  induction l with
  | nil => rfl
  | cons d l ih =>
    by_cases hd : d = 0
    · rw [hd, zeros_cons_zero, significant_cons_zero, List.replicate_succ, List.cons_append, ih]
    · rw [zeros_cons_of_ne hd, significant_cons_of_ne hd]
      rfl

theorem length_eq (l : List ℕ) : l.length = zeros l + (significant l).length := by
  have h := congrArg List.length (replicate_append_significant l)
  rw [List.length_append, List.length_replicate] at h
  exact h.symm

theorem value_significant (base : ℕ) (l : List ℕ) :
    value base (significant l) = value base l := by
  have h := congrArg (value base) (replicate_append_significant l)
  rw [value_append, value_replicate_zero] at h
  omega

theorem significant_eq_nil_or (l : List ℕ) :
    significant l = [] ∨ ∃ d m, d ≠ 0 ∧ significant l = d :: m := by
  induction l with
  | nil => exact .inl rfl
  | cons d l ih =>
    by_cases hd : d = 0
    · rw [hd, significant_cons_zero]
      exact ih
    · exact .inr ⟨d, l, hd, significant_cons_of_ne hd l⟩

/-! ## 3. The digits of a number -/

/-- The digits of a number, the highest first; zero has none. -/
def digits (base v : ℕ) : List ℕ := (Nat.digits base v).reverse

theorem digits_lt (hbase : 1 < base) {v d : ℕ} (hd : d ∈ digits base v) : d < base :=
  Nat.digits_lt_base hbase (List.mem_reverse.mp hd)

@[simp] theorem value_digits (base v : ℕ) : value base (digits base v) = v := by
  rw [value, digits, List.reverse_reverse, Nat.ofDigits_digits]

theorem length_digits_le_iff (hbase : 1 < base) {v k : ℕ} :
    (digits base v).length ≤ k ↔ v < base ^ k := by
  rw [digits, List.length_reverse]
  exact Nat.digits_length_le_iff hbase v

/-- **One way to write a number**: what follows the zeros are its digits. -/
theorem significant_eq (hbase : 1 < base) (hl : ∀ d ∈ l, d < base) :
    significant l = digits base (value base l) := by
  rw [← value_significant base l, value, digits, Nat.digits_ofDigits base hbase,
    List.reverse_reverse]
  · intro d hd
    exact hl d (List.dropWhile_subset _ (List.mem_reverse.mp hd))
  · intro hne
    rcases significant_eq_nil_or l with hnil | ⟨d, m, hd, hcons⟩
    · rw [hnil] at hne
      exact absurd rfl hne
    · -- the last of the reversed digits is the first one
      simp only [hcons, List.reverse_cons, List.getLast_append_singleton]
      exact hd

theorem zeros_digits (base v : ℕ) : zeros (digits base v) = 0 := by
  by_cases hv : v = 0
  · rw [hv, digits, Nat.digits_zero]
    rfl
  · have hlast := Nat.getLast_digit_ne_zero base hv
    have hne : Nat.digits base v ≠ [] := Nat.digits_ne_nil_iff_ne_zero.mpr hv
    rw [digits, ← List.dropLast_append_getLast hne, List.reverse_append]
    exact zeros_cons_of_ne hlast _

/-- Zeros in front of the digits of a number are all there are. -/
theorem zeros_replicate_append_digits (base v z : ℕ) :
    zeros (List.replicate z 0 ++ digits base v) = z := by
  induction z with
  | zero => exact zeros_digits base v
  | succ z ih => rw [List.replicate_succ, List.cons_append, zeros_cons_zero, ih]

end Radix
