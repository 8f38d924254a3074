/-
Numbers that are given out one after another.

What is numbered stands in a list, in the order it came in, and the number of a thing is
its place in the list, counted from one. The list only grows at its end, so a number once
given stays (`number_append_of_some`, `name_append_of_some`), and as long as nothing comes
in twice numbers and names determine each other (`number_eq_some_iff`).
-/
import Mathlib.Data.List.Basic
import Mathlib.Data.List.Nodup

set_option autoImplicit false

namespace Numbering

variable {α : Type} [DecidableEq α] {names new : List α} {a b : α} {n : ℕ}

/-- The number of a thing. -/
def number (names : List α) (a : α) : Option ℕ := (names.idxOf? a).map (· + 1)

/-- What has a number. -/
def name (names : List α) : ℕ → Option α
  | 0 => none
  | n + 1 => names[n]?

@[simp] theorem number_nil (a : α) : number [] a = none := rfl

omit [DecidableEq α] in
@[simp] theorem name_nil (n : ℕ) : name ([] : List α) n = none := by
  cases n with
  | zero => rfl
  | succ n => simp [name]

theorem number_isSome_iff : (number names a).isSome = true ↔ a ∈ names := by
  simp [number, List.isSome_idxOf?]

theorem number_eq_none_iff : number names a = none ↔ a ∉ names := by
  rw [← number_isSome_iff, Bool.not_eq_true, Option.isSome_eq_false_iff, Option.isNone_iff_eq_none]

/-- **Numbers and names determine each other.** -/
theorem number_eq_some_iff (hnodup : names.Nodup) :
    number names a = some n ↔ name names n = some a := by
  unfold number name
  cases n with
  | zero => simp
  | succ n =>
    simp only [Option.map_eq_some_iff, Nat.add_right_cancel_iff, exists_eq_right]
    rw [List.idxOf?_eq_some_iff]
    constructor
    · rintro ⟨hlt, hget, -⟩
      rw [List.getElem?_eq_getElem hlt, hget]
    · intro hget
      obtain ⟨hlt, hget⟩ := List.getElem?_eq_some_iff.mp hget
      refine ⟨hlt, hget, ?_⟩
      -- an earlier place would hold the same thing
      intro j hj heq
      have hsame := (List.Nodup.getElem_inj_iff hnodup).mp (heq.trans hget.symm)
      omega

theorem number_injective (hnodup : names.Nodup) (ha : number names a = some n)
    (hb : number names b = some n) : a = b := by
  rw [number_eq_some_iff hnodup] at ha hb
  exact Option.some.inj (ha.symm.trans hb)

omit [DecidableEq α] in
/-- The numbers in use are those from one to the length. -/
theorem name_isSome_iff : (name names n).isSome = true ↔ 1 ≤ n ∧ n ≤ names.length := by
  cases n with
  | zero => simp [name]
  | succ n =>
    simp only [name, Option.isSome_iff_ne_none, ne_eq, List.getElem?_eq_none_iff]
    omega

/-! ## Growing -/

omit [DecidableEq α] in
theorem name_append : name (names ++ new) n =
    if n ≤ names.length then name names n else new[n - names.length - 1]? := by
  cases n with
  | zero => simp [name]
  | succ n =>
    by_cases hle : n + 1 ≤ names.length
    · simp only [name, hle, if_true]
      exact List.getElem?_append_left (by omega)
    · simp only [name, hle, if_false]
      rw [List.getElem?_append_right (by omega)]
      congr 1
      omega

omit [DecidableEq α] in
/-- A number keeps its name. -/
theorem name_append_of_some (h : name names n = some a) : name (names ++ new) n = some a := by
  have hle := (name_isSome_iff.mp (by rw [h]; rfl)).2
  rw [name_append, if_pos hle, h]

/-- New things get the numbers after the last. -/
theorem number_append : number (names ++ new) a =
    (number names a).or ((new.idxOf? a).map fun offset => names.length + offset + 1) := by
  have happend : (names ++ new).idxOf? a =
      (names.idxOf? a).or ((new.idxOf? a).map (· + names.length)) := List.findIdx?_append
  unfold number
  rw [happend]
  cases names.idxOf? a with
  | some i => rfl
  | none =>
    cases new.idxOf? a with
    | none => rfl
    | some offset => simp [Nat.add_comm]

/-- A thing keeps its number. -/
theorem number_append_of_some (h : number names a = some n) :
    number (names ++ new) a = some n := by
  rw [number_append, h]
  rfl

end Numbering
