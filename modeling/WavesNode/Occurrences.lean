/-
Where one list occurs in another, from left to right.

`firstFrom` is the leftmost place at or after a given one. `count` goes through the list once:
where an occurrence is met, its elements are passed over, and so two that overlap count as one.
What lies between a place and the first occurrence after it has none, and it adds nothing to the
count.
-/
import Mathlib.Data.List.Infix

set_option autoImplicit false

namespace Occurrences

variable {α : Type*} [DecidableEq α]

/-! ## 1. The leftmost place -/

/-- The leftmost place, at or after `start`, where `sub` begins. -/
def firstFrom (sub l : List α) (start : ℕ) : Option ℕ :=
  (List.range' start (l.length + 1 - start)).find? fun i => sub <+: l.drop i

theorem firstFrom_eq_some_iff {sub l : List α} {start i : ℕ} :
    firstFrom sub l start = some i ↔ (start ≤ i ∧ i ≤ l.length) ∧ sub <+: l.drop i ∧
      ∀ j, start ≤ j → j < i → ¬ sub <+: l.drop j := by
  simp only [firstFrom, List.find?_range'_eq_some, decide_eq_true_eq, List.mem_range'_1,
    Bool.not_eq_true', decide_eq_false_iff_not]
  constructor
  · rintro ⟨hsub, hrange, hleft⟩
    exact ⟨by omega, hsub, hleft⟩
  · rintro ⟨hrange, hsub, hleft⟩
    exact ⟨hsub, by omega, hleft⟩

theorem firstFrom_eq_none_iff {sub l : List α} {start : ℕ} :
    firstFrom sub l start = none ↔ ∀ j, start ≤ j → j ≤ l.length → ¬ sub <+: l.drop j := by
  simp only [firstFrom, List.find?_range'_eq_none, Bool.not_eq_true', decide_eq_false_iff_not]
  constructor
  · intro h j hstart hlen
    exact h j hstart (by omega)
  · intro h j hstart hlen
    exact h j hstart (by omega)

/-! ## 2. What an occurrence takes apart -/

omit [DecidableEq α] in
/-- An occurrence ends within the list. -/
theorem length_le_of_prefix_drop {sub l : List α} {i : ℕ} (hi : i ≤ l.length)
    (h : sub <+: l.drop i) : i + sub.length ≤ l.length := by
  have hle := h.length_le
  rw [List.length_drop] at hle
  omega

omit [DecidableEq α] in
theorem drop_eq_append {sub l : List α} {i : ℕ} (h : sub <+: l.drop i) :
    l.drop i = sub ++ l.drop (i + sub.length) := by
  obtain ⟨rest, hrest⟩ := h
  rw [← List.drop_drop, ← hrest, List.drop_left]

omit [DecidableEq α] in
/-- Up to the end of an occurrence: what is before the start, between, and the occurrence. -/
theorem take_add_length {sub l : List α} {start i : ℕ} (hstart : start ≤ i)
    (h : sub <+: l.drop i) :
    l.take (i + sub.length) = l.take start ++ ((l.drop start).take (i - start) ++ sub) := by
  have hsub : (l.drop i).take sub.length = sub := (List.prefix_iff_eq_take.mp h).symm
  rw [List.take_add, hsub, ← List.append_assoc, ← List.take_add]
  rw [show start + (i - start) = i by omega]

/-- Between a place and the first occurrence after it there is none. -/
theorem between_eq_none {sub l : List α} {start i : ℕ} (hsub : sub ≠ [])
    (h : firstFrom sub l start = some i) :
    firstFrom sub ((l.drop start).take (i - start)) 0 = none := by
  obtain ⟨-, -, hleft⟩ := firstFrom_eq_some_iff.mp h
  refine firstFrom_eq_none_iff.mpr fun j _ _ hj => ?_
  rw [List.drop_take, List.drop_drop] at hj
  have hlt : j < i - start := by
    -- nothing that has an element begins where the piece ends
    by_contra hge
    rw [show i - start - j = 0 by omega, List.take_zero] at hj
    exact hsub (List.prefix_nil.mp hj)
  exact hleft (start + j) (by omega) (by omega) (hj.trans (List.take_prefix _ _))

/-- What is left where there is no occurrence any more has none. -/
theorem rest_eq_none {sub l : List α} {start : ℕ} (hstart : start ≤ l.length)
    (h : firstFrom sub l start = none) : firstFrom sub (l.drop start) 0 = none := by
  refine firstFrom_eq_none_iff.mpr fun j _ hlen hj => ?_
  rw [List.drop_drop] at hj
  rw [List.length_drop] at hlen
  exact firstFrom_eq_none_iff.mp h (start + j) (by omega) (by omega) hj

/-! ## 3. The number of occurrences -/

/-- The occurrences that are met from left to right, after so many elements are passed over. -/
def countAfter (sub : List α) : ℕ → List α → ℕ
  | _, [] => 0
  | k + 1, _ :: l => countAfter sub k l
  | 0, a :: l =>
    if sub <+: a :: l then countAfter sub (sub.length - 1) l + 1 else countAfter sub 0 l

/-- How often `sub` is met, without overlap. -/
def count (sub l : List α) : ℕ := countAfter sub 0 l

theorem countAfter_eq (sub : List α) (k : ℕ) (l : List α) :
    countAfter sub k l = count sub (l.drop k) := by
  induction l generalizing k with
  | nil =>
    rw [List.drop_nil]
    cases k <;> rfl
  | cons a l ih =>
    cases k with
    | zero => rfl
    | succ k => exact ih k

/-- An occurrence at the front counts, and what follows it is counted on. -/
theorem count_of_prefix {sub l : List α} (hsub : sub ≠ []) (h : sub <+: l) :
    count sub l = count sub (l.drop sub.length) + 1 := by
  cases l with
  | nil => exact absurd (List.prefix_nil.mp h) hsub
  | cons a l =>
    have hpos := List.length_pos_iff.mpr hsub
    rw [count, countAfter, if_pos h, countAfter_eq]
    rw [show sub.length = sub.length - 1 + 1 by omega, List.drop_succ_cons]
    rfl

theorem count_drop_succ {sub l : List α} {i : ℕ} (h : ¬ sub <+: l.drop i) :
    count sub (l.drop i) = count sub (l.drop (i + 1)) := by
  rw [← List.drop_drop]
  cases hl : l.drop i with
  | nil => rfl
  | cons a rest =>
    rw [hl] at h
    rw [count, countAfter, if_neg h]
    rfl

/-- Nothing is counted up to the first occurrence. -/
theorem count_drop_of_left {sub l : List α} {start n : ℕ}
    (h : ∀ j, start ≤ j → j < start + n → ¬ sub <+: l.drop j) :
    count sub (l.drop start) = count sub (l.drop (start + n)) := by
  induction n with
  | zero => rfl
  | succ n ih =>
    rw [ih fun j hj hlt => h j hj (by omega), count_drop_succ (h (start + n) (by omega) (by omega))]
    rfl

/-- Past the first occurrence there is one less. -/
theorem count_of_firstFrom {sub l : List α} {start i : ℕ} (hsub : sub ≠ [])
    (h : firstFrom sub l start = some i) :
    count sub (l.drop start) = count sub (l.drop (i + sub.length)) + 1 := by
  obtain ⟨⟨hstart, -⟩, hi, hleft⟩ := firstFrom_eq_some_iff.mp h
  have hskip := count_drop_of_left (n := i - start) fun j hj hlt => hleft j hj (by omega)
  rw [hskip, show start + (i - start) = i by omega, count_of_prefix hsub hi, List.drop_drop]

theorem count_of_none {sub l : List α} {start : ℕ} (hstart : start ≤ l.length)
    (h : firstFrom sub l start = none) : count sub (l.drop start) = 0 := by
  have hskip := count_drop_of_left (n := l.length - start) fun j hj hlt =>
    firstFrom_eq_none_iff.mp h j hj (by omega)
  rw [hskip, List.drop_eq_nil_of_le (by omega)]
  rfl

/-! ## 4. Pieces put together again -/

omit [DecidableEq α] in
/-- Pieces with a separator after each, and a last one. -/
theorem intercalate_concat (sep : List α) (pieces : List (List α)) (last : List α) :
    sep.intercalate (pieces ++ [last]) = (pieces.map (· ++ sep)).flatten ++ last := by
  induction pieces with
  | nil => exact List.intercalate_singleton
  | cons p ps ih =>
    have hne : ps ++ [last] ≠ [] := List.append_ne_nil_of_right_ne_nil _ (List.cons_ne_nil _ _)
    rw [List.cons_append, List.intercalate_cons_of_ne_nil hne, ih, List.map_cons,
      List.flatten_cons]
    simp only [List.append_assoc]

end Occurrences
