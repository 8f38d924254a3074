/-
The functions that take an index: `take`, `drop`, `takeRight`, `dropRight` and `getElement`.

An index is a word of 64 bits, and what it is given to counts with 32. Byte vectors bring it
between zero and their size first, strings into the range of the small word. Lists cut off its
upper half, so that the element 2 to the 32nd is the element 0. The two functions that count
from the end subtract the number from the size, and fail where the difference is not a word.

`CutFunctions` is what byte vectors and strings share: a pair of functions that cut at the number,
and a size. Both laws are proved of such a pair once.
-/
import WavesNode.JavaString
import WavesNode.PureContext

set_option autoImplicit false

namespace WavesNode

namespace Lang

/-! ## 1. The functions -/

/-- `Math.toIntExact`. -/
def toIntExact (n : ℤ) : Except Throwable ℤ :=
  if -2147483648 ≤ n ∧ n ≤ 2147483647 then .ok n
  else .error (.ArithmeticException "integer overflow")

namespace ByteStr

/-- `ByteStr.take`. -/
def take (bs : ByteStr) (n : Long) : ByteStr :=
  let n1 := max (min n.toInt bs.length) 0
  if n1 = bs.length then bs
  else if n1 = 0 then []
  else List.take (toInt32 n1).toNat bs

/-- `ByteStr.drop`. -/
def drop (bs : ByteStr) (n : Long) : ByteStr :=
  let n1 := max (min n.toInt bs.length) 0
  if n1 = bs.length then []
  else if n1 = 0 then bs
  else List.drop (toInt32 n1).toNat bs

end ByteStr

namespace PureContext

/-- The outcome that an `Either` is. -/
def outcomeOf {α : Type} : Except String α → Outcome α
  | .ok a => .Right a
  | .error e => .Left e

/-- `CONST_BYTESTR.apply`. -/
def byteVector (bs : ByteStr) : Except String ConstBytes :=
  if h : bs.length ≤ DATA_TX_BYTES_MAX then .ok ⟨bs, h⟩
  else .error s!"ByteStr exceeds {DATA_TX_BYTES_MAX} bytes"

def takeBytes (xs : ConstBytes) (number : Long) : Outcome ConstBytes :=
  outcomeOf (byteVector (ByteStr.take xs.bs number))

def dropBytes (xs : ConstBytes) (number : Long) : Outcome ConstBytes :=
  outcomeOf (byteVector (ByteStr.drop xs.bs number))

def sizeBytes (xs : ConstBytes) : Long := Int64.ofNat xs.bs.length

def trimLongToInt (x : Long) : Except Throwable ℤ :=
  toIntExact (max (min x.toInt 2147483647) (-2147483648))

/-- A function of a string and an index of 32 bits. -/
def trimmed (f : JavaString → ℤ → JavaString) (xs : Text) (number : Long) : Outcome Text :=
  match trimLongToInt number with
  | .ok n => outcomeOf (Text.apply (f xs.s n))
  | .error e => .thrown e

def takeString : Text → Long → Outcome Text := trimmed JavaString.take

def dropString : Text → Long → Outcome Text := trimmed JavaString.drop

def sizeString (xs : Text) : Long := Int64.ofNat xs.s.length

/-- A user function that calls another with the size less the number, by `subLong`. -/
def fromEnd {σ : Type} (f : σ → Long → Outcome σ) (size : σ → Long) (xs : σ) (number : Long) :
    Outcome σ :=
  match Math.subtractExact (size xs) number with
  | .ok n => f xs n
  | .error e => .Left e.getMessage

def dropRightBytes : ConstBytes → Long → Outcome ConstBytes := fromEnd takeBytes sizeBytes

def takeRightBytes : ConstBytes → Long → Outcome ConstBytes := fromEnd dropBytes sizeBytes

def takeRightString : Text → Long → Outcome Text := fromEnd dropString sizeString

def dropRightString : Text → Long → Outcome Text := fromEnd takeString sizeString

/-- `getElement`: an index out of bounds is an error. -/
def getElement {α : Type} (arr : List α) (pos : Long) : Outcome α :=
  if toInt32 pos.toInt < 0 then .Left s!"Index {pos} out of bounds for length {arr.length}"
  else
    match arr[(toInt32 pos.toInt).toNat]? with
    | some x => .Right x
    | none => .Left s!"Index {pos} out of bounds for length {arr.length}"

/-! ## 2. The laws -/

section Laws

variable {σ β : Type} (elems : σ → List β)

/-- The number, brought between zero and the size. -/
def clamped (xs : σ) (n : Long) : ℤ := min (max n.toInt 0) (elems xs).length

/-- `take` and `drop` cut at the number. -/
def CutsFront (take drop : σ → Long → Outcome σ) (xs : σ) (n : Long) : Prop :=
  ∃ front rest, take xs n = .Right front ∧ drop xs n = .Right rest ∧
    elems front ++ elems rest = elems xs ∧ (elems front).length = clamped elems xs n

/-- `dropRight` and `takeRight` cut at the number, counted from the end. -/
def CutsBack (dropRight takeRight : σ → Long → Outcome σ) (xs : σ) (n : Long) : Prop :=
  ∃ rest back, dropRight xs n = .Right rest ∧ takeRight xs n = .Right back ∧
    elems rest ++ elems back = elems xs ∧ (elems back).length = clamped elems xs n

/-- The element at the number is returned where there is one, and an error where not. -/
def Reads {α : Type} (xs : List α) (n : Long) : Prop :=
  (∀ x, 0 ≤ n.toInt → xs[n.toInt.toNat]? = some x → getElement xs n = .Right x) ∧
    (n.toInt < 0 ∨ xs.length ≤ n.toInt → ∃ e, getElement xs n = .Left e)

end Laws

/-- What is indexed: a string, a byte vector, or a list that the machine can hold. -/
inductive Indexed (α : Type) where
  | text (xs : Text)
  | bytes (xs : ConstBytes)
  | list (xs : List α) (size_lt : xs.length < 2 ^ 31)

namespace Indexed

variable {α : Type}

/-- The functions of what is indexed do what they are to do at a number. -/
def Correct : Indexed α → Long → Prop
  | text xs, n => CutsFront Text.s takeString dropString xs n ∧
      CutsBack Text.s dropRightString takeRightString xs n
  | bytes xs, n => CutsFront ConstBytes.bs takeBytes dropBytes xs n ∧
      CutsBack ConstBytes.bs dropRightBytes takeRightBytes xs n
  | list xs _, n => Reads xs n

/-- The size less the number is a word; the lower half of the number is not an index, or is the
number itself. -/
def Safe : Indexed α → Long → Prop
  | text xs, n => Long.InRange (xs.s.length - n.toInt)
  | bytes xs, n => Long.InRange (xs.bs.length - n.toInt)
  | list xs _, n => 0 ≤ toInt32 n.toInt ∧ toInt32 n.toInt < xs.length → toInt32 n.toInt = n.toInt

end Indexed

/-! ## 3. Cutting a sequence -/

section Cut

variable {σ β : Type}

/-- Two functions that cut a sequence at a number, and its size. -/
structure CutFunctions (elems : σ → List β) (take drop : σ → Long → Outcome σ)
    (size : σ → Long) : Prop where
  take_eq : ∀ xs n, ∃ t, take xs n = .Right t ∧ elems t = List.take n.toInt.toNat (elems xs)
  drop_eq : ∀ xs n, ∃ t, drop xs n = .Right t ∧ elems t = List.drop n.toInt.toNat (elems xs)
  size_eq : ∀ xs, (size xs).toInt = (elems xs).length

variable {elems : σ → List β} {take drop : σ → Long → Outcome σ} {size : σ → Long}

theorem CutFunctions.cutsFront (hcut : CutFunctions elems take drop size) (xs : σ) (n : Long) :
    CutsFront elems take drop xs n := by
  obtain ⟨front, htake, hfront⟩ := hcut.take_eq xs n
  obtain ⟨rest, hdrop, hrest⟩ := hcut.drop_eq xs n
  refine ⟨front, rest, htake, hdrop, ?_, ?_⟩
  · rw [hfront, hrest, List.take_append_drop]
  · rw [hfront, List.length_take, clamped]
    omega

/-- Counted from the end they cut right exactly when the difference is a word. -/
theorem CutFunctions.cutsBack_iff (hcut : CutFunctions elems take drop size) (xs : σ)
    (n : Long) :
    CutsBack elems (fromEnd take size) (fromEnd drop size) xs n ↔
      Long.InRange ((elems xs).length - n.toInt) := by
  have hsize := hcut.size_eq xs
  constructor
  · rintro ⟨rest, back, hrest, -⟩
    by_contra hrange
    have hnone : Long.subtractExact (size xs) n = none := by
      rw [Long.subtractExact, hsize, if_neg hrange]
    simp only [fromEnd, Math.subtractExact, Math.checked, hnone] at hrest
    cases hrest
  · intro hrange
    have hsome : Long.subtractExact (size xs) n = some (size xs - n) := by
      rw [Long.subtractExact, hsize, if_pos hrange]
    have hdiff : (size xs - n).toInt = (elems xs).length - n.toInt := by
      rw [Long.toInt_sub (by rw [hsize]; exact hrange), hsize]
    obtain ⟨rest, htake, hrest⟩ := hcut.take_eq xs (size xs - n)
    obtain ⟨back, hdrop, hback⟩ := hcut.drop_eq xs (size xs - n)
    refine ⟨rest, back, ?_, ?_, ?_, ?_⟩
    · simp only [fromEnd, Math.subtractExact, Math.checked, hsome]
      exact htake
    · simp only [fromEnd, Math.subtractExact, Math.checked, hsome]
      exact hdrop
    · rw [hrest, hback, List.take_append_drop]
    · rw [hback, List.length_drop, hdiff, clamped]
      omega

end Cut

/-! ## 4. Byte vectors and strings -/

theorem toInt_sizeOf {len : ℕ} (h : len < 2 ^ 63) : (Int64.ofNat len).toInt = len :=
  Int64.toInt_ofNat_of_lt h

theorem ByteStr_take_eq {bs : ByteStr} (h : bs.length ≤ 2147483647) (n : Long) :
    ByteStr.take bs n = List.take n.toInt.toNat bs := by
  unfold ByteStr.take
  by_cases hall : max (min n.toInt bs.length) 0 = bs.length
  · rw [if_pos hall, List.take_of_length_le (by omega)]
  · rw [if_neg hall]
    by_cases hnone : max (min n.toInt bs.length) 0 = 0
    · rw [if_pos hnone, show n.toInt.toNat = 0 by omega]
      rfl
    · rw [if_neg hnone, toInt32_of_range (by omega) (by omega)]
      rw [show (max (min n.toInt bs.length) 0).toNat = n.toInt.toNat by omega]

theorem ByteStr_drop_eq {bs : ByteStr} (h : bs.length ≤ 2147483647) (n : Long) :
    ByteStr.drop bs n = List.drop n.toInt.toNat bs := by
  unfold ByteStr.drop
  by_cases hall : max (min n.toInt bs.length) 0 = bs.length
  · rw [if_pos hall, List.drop_eq_nil_of_le (by omega)]
  · rw [if_neg hall]
    by_cases hnone : max (min n.toInt bs.length) 0 = 0
    · rw [if_pos hnone, show n.toInt.toNat = 0 by omega]
      rfl
    · rw [if_neg hnone, toInt32_of_range (by omega) (by omega)]
      rw [show (max (min n.toInt bs.length) 0).toNat = n.toInt.toNat by omega]

theorem ConstBytes_length_le (xs : ConstBytes) : xs.bs.length ≤ 153600 := xs.size_le

theorem cutFunctions_bytes : CutFunctions ConstBytes.bs takeBytes dropBytes sizeBytes where
  take_eq xs n := by
    have hlen := ConstBytes_length_le xs
    have hle : (List.take n.toInt.toNat xs.bs).length ≤ DATA_TX_BYTES_MAX := by
      rw [List.length_take]
      exact (Nat.min_le_right _ _).trans xs.size_le
    refine ⟨⟨_, hle⟩, ?_, rfl⟩
    rw [takeBytes, ByteStr_take_eq (by omega), byteVector, dif_pos hle]
    rfl
  drop_eq xs n := by
    have hlen := ConstBytes_length_le xs
    have hle : (List.drop n.toInt.toNat xs.bs).length ≤ DATA_TX_BYTES_MAX := by
      rw [List.length_drop]
      exact (Nat.sub_le _ _).trans xs.size_le
    refine ⟨⟨_, hle⟩, ?_, rfl⟩
    rw [dropBytes, ByteStr_drop_eq (by omega), byteVector, dif_pos hle]
    rfl
  size_eq xs := by
    have hlen := ConstBytes_length_le xs
    exact toInt_sizeOf (by omega)

/-- A number that is brought into the range of the small word cuts a string where it does
itself, for no string is longer. -/
theorem trimLongToInt_eq (x : Long) :
    trimLongToInt x = .ok (max (min x.toInt 2147483647) (-2147483648)) :=
  if_pos (by omega)

theorem cutFunctions_string : CutFunctions Text.s takeString dropString sizeString where
  take_eq xs n := by
    have hlen := xs.length_le
    have hcut : JavaString.take xs.s (max (min n.toInt 2147483647) (-2147483648)) =
        List.take n.toInt.toNat xs.s := by
      unfold JavaString.take
      by_cases hbig : n.toInt ≤ 2147483647
      · rw [show (max (min n.toInt 2147483647) (-2147483648)).toNat = n.toInt.toNat by omega]
      · rw [List.take_of_length_le (by omega), List.take_of_length_le (by omega)]
    have hle := (JavaString.utf8Length_take_le n.toInt.toNat xs.s).trans xs.size_le
    refine ⟨⟨_, hle⟩, ?_, rfl⟩
    simp only [takeString, trimmed, trimLongToInt_eq, hcut, Text.apply_of_le hle]
    rfl
  drop_eq xs n := by
    have hlen := xs.length_le
    have hcut : JavaString.drop xs.s (max (min n.toInt 2147483647) (-2147483648)) =
        List.drop n.toInt.toNat xs.s := by
      unfold JavaString.drop
      by_cases hbig : n.toInt ≤ 2147483647
      · rw [show (max (min n.toInt 2147483647) (-2147483648)).toNat = n.toInt.toNat by omega]
      · rw [List.drop_eq_nil_of_le (by omega), List.drop_eq_nil_of_le (by omega)]
    have hle := (JavaString.utf8Length_drop_le n.toInt.toNat xs.s).trans xs.size_le
    refine ⟨⟨_, hle⟩, ?_, rfl⟩
    simp only [dropString, trimmed, trimLongToInt_eq, hcut, Text.apply_of_le hle]
    rfl
  size_eq xs := by
    have hlen := xs.length_le
    exact toInt_sizeOf (by omega)

/-! ## 5. Lists -/

section List

variable {α : Type} {xs : List α} {n : Long}

theorem getElement_of_some {x : α} (hpos : 0 ≤ toInt32 n.toInt)
    (hx : xs[(toInt32 n.toInt).toNat]? = some x) : getElement xs n = .Right x := by
  rw [getElement, if_neg (by omega), hx]

theorem getElement_of_not_index (h : ¬ (0 ≤ toInt32 n.toInt ∧ toInt32 n.toInt < xs.length)) :
    ∃ e, getElement xs n = .Left e := by
  unfold getElement
  by_cases hneg : toInt32 n.toInt < 0
  · rw [if_pos hneg]
    exact ⟨_, rfl⟩
  · rw [if_neg hneg, List.getElem?_eq_none (by omega)]
    exact ⟨_, rfl⟩

theorem reads_iff (hsize : xs.length < 2 ^ 31) :
    Reads xs n ↔
      (0 ≤ toInt32 n.toInt ∧ toInt32 n.toInt < xs.length → toInt32 n.toInt = n.toInt) := by
  constructor
  · rintro ⟨-, herror⟩ ⟨hlo, hhi⟩
    -- otherwise the number is no index, but an element is returned
    by_contra hne
    have hout : n.toInt < 0 ∨ xs.length ≤ n.toInt := by
      by_contra hin
      exact hne (toInt32_of_range (by omega) (by omega))
    obtain ⟨e, he⟩ := herror hout
    have hx := List.getElem?_eq_getElem (show (toInt32 n.toInt).toNat < xs.length by omega)
    rw [getElement_of_some hlo hx] at he
    cases he
  · intro h
    refine ⟨fun x hpos hx => ?_, fun hout => getElement_of_not_index fun hin => ?_⟩
    · obtain ⟨hlt, -⟩ := List.getElem?_eq_some_iff.mp hx
      have hsame : toInt32 n.toInt = n.toInt := toInt32_of_range (by omega) (by omega)
      refine getElement_of_some ?_ ?_
      · rw [hsame]
        exact hpos
      · rw [hsame]
        exact hx
    · have hsame := h hin
      omega

end List

/-! ## 6. The law -/

/-- **The index functions are right** exactly when the number counted from the end leaves a word,
and when a number that is not an index of a list does not have one for its lower half. -/
theorem Indexed.correct_iff {α : Type} (xs : Indexed α) (n : Long) :
    xs.Correct n ↔ xs.Safe n := by
  cases xs with
  | text xs =>
    have hfront := cutFunctions_string.cutsFront xs n
    have hback := cutFunctions_string.cutsBack_iff xs n
    exact (and_iff_right hfront).trans hback
  | bytes xs =>
    have hfront := cutFunctions_bytes.cutsFront xs n
    have hback := cutFunctions_bytes.cutsBack_iff xs n
    exact (and_iff_right hfront).trans hback
  | list xs hsize => exact reads_iff hsize

/-- The element 2 to the 32nd of a list of one element is that element, and the last so many
units of a string cannot be taken when the number is the least word. -/
theorem Indexed.not_correct :
    ¬ (Indexed.list [true] (by decide)).Correct 4294967296 ∧
      ¬ (Indexed.text ⟨[97], by decide⟩ : Indexed Bool).Correct Long.MinValue := by
  constructor
  · rintro ⟨-, herror⟩
    obtain ⟨e, he⟩ := herror (.inr (by decide))
    cases he
  · rintro ⟨-, rest, back, hrest, -⟩
    cases hrest

end PureContext

end Lang

end WavesNode
