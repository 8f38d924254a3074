/-
The strings of the virtual machine.

A string is a list of 16-bit code units. A character outside the basic plane takes two of them,
a surrogate pair, and every index counts units: a cut may go through a pair, and a surrogate
without its other half is then written as a question mark. So the bytes of a part never
outnumber those of the whole, and what is cut out of a constant fits the bound of a constant.
-/
import WavesNode.Occurrences
import WavesNode.Terms

set_option autoImplicit false

namespace WavesNode

/-! ## 1. The small word -/

/-- What an `Int` holds of a number: its lower 32 bits. -/
def toInt32 (n : ℤ) : ℤ := n.bmod (2 ^ 32)

theorem toInt32_of_range {n : ℤ} (hlo : -2147483648 ≤ n) (hhi : n ≤ 2147483647) :
    toInt32 n = n := Int.bmod_eq_of_le (by omega) (by omega)

theorem toInt32_le (n : ℤ) : toInt32 n ≤ 2147483647 := by
  have hlt := Int.bmod_lt (x := n) (m := 2 ^ 32) (by omega)
  unfold toInt32
  omega

/-- A number just above the range is held as one below zero. -/
theorem toInt32_of_wrap {n : ℤ} (hlo : 2147483648 ≤ n) (hhi : n < 6442450944) :
    toInt32 n = n - 4294967296 := by
  have hshift : toInt32 n = toInt32 (n - 4294967296) := (Int.sub_bmod_right n (2 ^ 32)).symm
  rw [hshift, toInt32_of_range (by omega) (by omega)]

/-- `String`: its code units. -/
abbrev JavaString := List UInt16

namespace JavaString

/-! ## 2. Methods of a string -/

/-- `StringIndexOutOfBoundsException`. -/
structure StringIndexOutOfBoundsException where
  beginIndex : ℤ
  endIndex : ℤ
  length : ℤ
  deriving DecidableEq

def substring (s : JavaString) (beginIndex endIndex : ℤ) :
    Except StringIndexOutOfBoundsException JavaString :=
  if 0 ≤ beginIndex ∧ beginIndex ≤ endIndex ∧ endIndex ≤ s.length then
    .ok ((s.drop beginIndex.toNat).take (endIndex - beginIndex).toNat)
  else .error ⟨beginIndex, endIndex, s.length⟩

/-- `indexOf`: a start before the front is the front, one after the end is the end. -/
def indexOf (s str : JavaString) (fromIndex : ℤ) : ℤ :=
  match Occurrences.firstFrom str s (min fromIndex.toNat s.length) with
  | some index => index
  | none => -1

/-- `take`: no more units than there are, and none for a negative number. -/
def take (s : JavaString) (n : ℤ) : JavaString := List.take n.toNat s

/-- `drop`. -/
def drop (s : JavaString) (n : ℤ) : JavaString := List.drop n.toNat s

theorem substring_eq {s : JavaString} {i j : ℕ} (hij : i ≤ j) (hj : j ≤ s.length) :
    substring s i j = .ok ((List.drop i s).take (j - i)) := by
  have hrange : (0 : ℤ) ≤ i ∧ (i : ℤ) ≤ j ∧ (j : ℤ) ≤ s.length := by omega
  have hlen : ((j : ℤ) - i).toNat = j - i := by omega
  rw [substring, if_pos hrange, hlen, Int.toNat_natCast]

theorem indexOf_of_some {s str : JavaString} {i index : ℕ} (hi : i ≤ s.length)
    (h : Occurrences.firstFrom str s i = some index) : indexOf s str i = index := by
  rw [indexOf, Int.toNat_natCast, Nat.min_eq_left hi, h]

theorem indexOf_of_none {s str : JavaString} {i : ℕ} (hi : i ≤ s.length)
    (h : Occurrences.firstFrom str s i = none) : indexOf s str i = -1 := by
  rw [indexOf, Int.toNat_natCast, Nat.min_eq_left hi, h]

/-! ## 3. The bytes of a string -/

def isHighSurrogate (c : UInt16) : Bool := 0xD800 ≤ c && c < 0xDC00

def isLowSurrogate (c : UInt16) : Bool := 0xDC00 ≤ c && c < 0xE000

/-- The bytes of a unit that is not half of a pair: a lone surrogate is a question mark. -/
def unitBytes (c : UInt16) : ℕ :=
  if c < 0x80 then 1
  else if c < 0x800 then 2
  else if isHighSurrogate c || isLowSurrogate c then 1
  else 3

/-- `getBytes("UTF-8").length`. -/
def utf8Length : JavaString → ℕ
  | [] => 0
  | [c] => unitBytes c
  | c :: d :: rest =>
    if isHighSurrogate c && isLowSurrogate d then 4 + utf8Length rest
    else unitBytes c + utf8Length (d :: rest)

theorem unitBytes_pos (c : UInt16) : 1 ≤ unitBytes c := by
  unfold unitBytes
  split_ifs <;> decide

theorem unitBytes_of_high {c : UInt16} (h : isHighSurrogate c = true) : unitBytes c = 1 := by
  unfold unitBytes
  rw [h]
  split_ifs with h1 h2 h3
  · rfl
  · -- a surrogate is not that small
    simp only [isHighSurrogate, Bool.and_eq_true, decide_eq_true_eq, UInt16.le_iff_toNat_le,
      UInt16.lt_iff_toNat_lt] at h h2
    simp only [UInt16.reduceToNat] at h h2
    omega
  · rfl
  · exact absurd rfl h3

theorem unitBytes_of_low {c : UInt16} (h : isLowSurrogate c = true) : unitBytes c = 1 := by
  unfold unitBytes
  rw [h, Bool.or_true]
  split_ifs with h1 h2 h3
  · rfl
  · simp only [isLowSurrogate, Bool.and_eq_true, decide_eq_true_eq, UInt16.le_iff_toNat_le,
      UInt16.lt_iff_toNat_lt] at h h2
    simp only [UInt16.reduceToNat] at h h2
    omega
  · rfl
  · exact absurd rfl h3

/-- The second half of a pair is not the first half of another. -/
theorem not_high_of_low {c : UInt16} (h : isLowSurrogate c = true) : isHighSurrogate c = false := by
  simp only [isLowSurrogate, Bool.and_eq_true, decide_eq_true_eq, UInt16.le_iff_toNat_le,
    UInt16.lt_iff_toNat_lt] at h
  simp only [isHighSurrogate, Bool.and_eq_false_iff, decide_eq_false_iff_not,
    UInt16.lt_iff_toNat_lt]
  simp only [UInt16.reduceToNat] at h ⊢
  omega

/-- A unit has a byte at least. -/
theorem length_le_utf8Length (s : JavaString) : s.length ≤ utf8Length s := by
  induction s using utf8Length.induct with
  | case1 => exact Nat.le_refl 0
  | case2 c => exact unitBytes_pos c
  | case3 c d rest hpair ih =>
    rw [utf8Length, if_pos hpair, List.length_cons, List.length_cons]
    omega
  | case4 c d rest hpair ih =>
    have hpos := unitBytes_pos c
    rw [utf8Length, if_neg hpair, List.length_cons]
    omega

/-- Without its first unit a string has no more bytes. -/
theorem utf8Length_le_cons (c : UInt16) (s : JavaString) : utf8Length s ≤ utf8Length (c :: s) := by
  cases s with
  | nil => exact Nat.zero_le _
  | cons d rest =>
    by_cases hpair : (isHighSurrogate c && isLowSurrogate d) = true
    · rw [utf8Length, if_pos hpair]
      have hlow := (Bool.and_eq_true_iff.mp hpair).2
      -- the second half, left alone, is one byte
      cases rest with
      | nil =>
        rw [utf8Length.eq_2, unitBytes_of_low hlow]
        omega
      | cons e rest =>
        rw [utf8Length, not_high_of_low hlow, Bool.false_and, if_neg Bool.false_ne_true,
          unitBytes_of_low hlow]
        omega
    · rw [utf8Length.eq_3, if_neg hpair]
      omega

theorem utf8Length_drop_le (n : ℕ) (s : JavaString) :
    utf8Length (List.drop n s) ≤ utf8Length s := by
  induction n generalizing s with
  | zero => exact Nat.le_refl _
  | succ n ih =>
    cases s with
    | nil => exact Nat.le_refl _
    | cons c s =>
      have hcons := utf8Length_le_cons c s
      have hdrop := ih s
      rw [List.drop_succ_cons]
      omega

theorem utf8Length_take_le (n : ℕ) (s : JavaString) :
    utf8Length (List.take n s) ≤ utf8Length s := by
  induction s using utf8Length.induct generalizing n with
  | case1 =>
    rw [List.take_nil]
  | case2 c =>
    cases n with
    | zero => exact Nat.zero_le _
    | succ n => rw [List.take_succ_cons, List.take_nil]
  | case3 c d rest hpair ih =>
    have hhigh := (Bool.and_eq_true_iff.mp hpair).1
    match n with
    | 0 => exact Nat.zero_le _
    | 1 =>
      -- the first half, left alone, is one byte
      rw [List.take_succ_cons, List.take_zero, utf8Length, utf8Length, if_pos hpair,
        unitBytes_of_high hhigh]
      omega
    | n + 2 =>
      have hrest := ih n
      rw [List.take_succ_cons, List.take_succ_cons, utf8Length, utf8Length, if_pos hpair,
        if_pos hpair]
      omega
  | case4 c d rest hpair ih =>
    match n with
    | 0 => exact Nat.zero_le _
    | 1 =>
      rw [List.take_succ_cons, List.take_zero, utf8Length, utf8Length, if_neg hpair]
      omega
    | n + 2 =>
      have hrest := ih (n + 1)
      rw [List.take_succ_cons] at hrest
      rw [List.take_succ_cons, List.take_succ_cons, utf8Length, utf8Length, if_neg hpair,
        if_neg hpair]
      omega

end JavaString

/-! ## 4. Constants -/

namespace Lang

/-- `CONST_STRING`, of the units of its string. -/
structure Text where
  s : JavaString
  size_le : JavaString.utf8Length s ≤ DATA_TX_BYTES_MAX
  deriving DecidableEq

namespace Text

/-- `CONST_STRING.apply`. -/
def apply (s : JavaString) : Except String Text :=
  if h : JavaString.utf8Length s ≤ DATA_TX_BYTES_MAX then .ok ⟨s, h⟩
  else .error s!"String exceeds {DATA_TX_BYTES_MAX} bytes"

theorem apply_of_le {s : JavaString} (h : JavaString.utf8Length s ≤ DATA_TX_BYTES_MAX) :
    apply s = .ok ⟨s, h⟩ := dif_pos h

/-- The units of a constant are far fewer than an index can count. -/
theorem length_le (t : Text) : t.s.length ≤ 153600 :=
  (JavaString.length_le_utf8Length t.s).trans t.size_le

end Text

end Lang

end WavesNode
