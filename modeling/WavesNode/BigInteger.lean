/-
Integers of any size as bytes.

`BigInteger.toByteArray` writes an integer in two's complement, most significant byte first,
in as few bytes as hold it and its sign. A number that is not negative is the number its bytes
are the digits of, so different numbers have different bytes; which bytes are those of a
number is `Minimal`.
-/
import Mathlib.Data.Nat.Size
import Mathlib.Tactic.Ring
import WavesNode.BigEndian

set_option autoImplicit false

/-! ## 1. Digits -/

namespace BigEndian

theorem read_append_list (l w : List Byte) :
    read (l ++ w) = read l * 256 ^ w.length + read w := by
  induction w using List.reverseRecOn with
  | nil => simp [read]
  | append_singleton w x ih =>
    rw [← List.append_assoc, read_append, ih, read_append, List.length_append,
      List.length_singleton, pow_succ]
    ring

theorem read_cons (b : Byte) (l : List Byte) :
    read (b :: l) = b.toUInt8.toNat * 256 ^ l.length + read l := by
  have hone : read [b] = b.toUInt8.toNat := by simp [read]
  rw [← List.singleton_append, read_append_list, hone]

/-- Numbers that fit are different if they are written differently. -/
theorem write_inj {len m n : ℕ} (hm : m < 256 ^ len) (hn : n < 256 ^ len)
    (h : write len m = write len n) : m = n := by
  have hread := congrArg read h
  rwa [read_write, read_write, Nat.mod_eq_of_lt hm, Nat.mod_eq_of_lt hn] at hread

end BigEndian

@[simp] theorem Ints.length_toByteArray (n : ℕ) : (Ints.toByteArray n).length = 4 :=
  BigEndian.length_write 4 n

theorem Ints.toByteArray_inj {m n : ℕ} (hm : m < 2 ^ 31) (hn : n < 2 ^ 31)
    (h : Ints.toByteArray m = Ints.toByteArray n) : m = n :=
  BigEndian.write_inj (by omega) (by omega) h

theorem Int8.nonneg_iff (b : Int8) : 0 ≤ b ↔ b.toUInt8.toNat < 128 := by
  have hvalue : b.toUInt8.toNat = b.toBitVec.toNat := rfl
  rw [Int8.le_iff_toInt_le, hvalue, ← Int8.toInt_toBitVec b, BitVec.toInt_eq_toNat_cond]
  have hzero : Int8.toInt 0 = 0 := rfl
  have hlt := b.toBitVec.isLt
  rw [hzero]
  omega

/-! ## 2. Integers -/

namespace BigInteger

/-- `BigInteger.bitLength`. -/
def bitLength (x : ℤ) : ℕ := (if x < 0 then -x - 1 else x).toNat.size

/-- `BigInteger.toByteArray`: as few bytes as hold the value and its sign. -/
def toByteArray (x : ℤ) : List Byte :=
  let len := bitLength x / 8 + 1
  BigEndian.write len (x % 256 ^ len).toNat

/-- The bytes of a number that is not negative are those of its digits, one more than its whole
bytes. -/
theorem toByteArray_natCast (n : ℕ) :
    toByteArray n = BigEndian.write (n.size / 8 + 1) n ∧ n < 256 ^ (n.size / 8 + 1) := by
  have hlength : bitLength n = n.size := by
    rw [bitLength, if_neg (by omega), Int.toNat_natCast]
  have hlt : n < 256 ^ (n.size / 8 + 1) := by
    have hpow : (256 : ℕ) ^ (n.size / 8 + 1) = 2 ^ (8 * (n.size / 8 + 1)) := by
      rw [pow_mul]
      rfl
    rw [hpow, ← Nat.size_le]
    omega
  refine ⟨?_, hlt⟩
  have hvalue : ((n : ℤ) % 256 ^ (n.size / 8 + 1)).toNat = n := by
    rw [Int.emod_eq_of_lt (Int.natCast_nonneg n) (by exact_mod_cast hlt), Int.toNat_natCast]
  rw [toByteArray, hlength]
  exact congrArg _ hvalue

theorem read_toByteArray (n : ℕ) : BigEndian.read (toByteArray n) = n := by
  obtain ⟨hbytes, hlt⟩ := toByteArray_natCast n
  rw [hbytes, BigEndian.read_write, Nat.mod_eq_of_lt hlt]

/-- The bytes of a number that is not negative, as few as there can be. -/
def Minimal (bytes : List Byte) : Prop :=
  ∃ b rest, bytes = b :: rest ∧ 0 ≤ b ∧ (b = 0 → ∀ next ∈ rest.head?, ¬0 ≤ next)

theorem read_lt_half_iff (b : Byte) (rest : List Byte) :
    BigEndian.read (b :: rest) < 2 ^ (8 * rest.length + 7) ↔ 0 ≤ b := by
  have hpow : 2 ^ (8 * rest.length + 7) = 128 * 256 ^ rest.length := by
    rw [pow_add, pow_mul]
    ring
  have hrest := BigEndian.read_lt rest
  rw [Int8.nonneg_iff, BigEndian.read_cons, hpow]
  constructor
  · intro h
    by_contra hge
    have hmul := Nat.mul_le_mul_right (256 ^ rest.length) (not_lt.mp hge)
    omega
  · intro h
    have hmul := Nat.mul_le_mul_right (256 ^ rest.length) (Nat.succ_le_of_lt h)
    rw [Nat.succ_mul] at hmul
    omega

/-- Bytes are those of the number that is read of them, if there are as many as are written. -/
theorem toByteArray_read_eq_iff_length (bytes : List Byte) :
    toByteArray (BigEndian.read bytes) = bytes ↔
      (BigEndian.read bytes).size / 8 + 1 = bytes.length := by
  rw [(toByteArray_natCast _).1]
  constructor
  · intro h
    rw [← congrArg List.length h, BigEndian.length_write]
  · intro h
    rw [h, BigEndian.write_read]

theorem minimal_cons_iff {b : Byte} {rest : List Byte} :
    Minimal (b :: rest) ↔ 0 ≤ b ∧ (b = 0 → ∀ next ∈ rest.head?, ¬0 ≤ next) := by
  unfold Minimal
  constructor
  · rintro ⟨b', rest', h, hmin⟩
    cases h
    exact hmin
  · intro h
    exact ⟨b, rest, rfl, h⟩

/-- A first byte of zero adds nothing to the number. -/
theorem read_zero_cons (rest : List Byte) : BigEndian.read (0 :: rest) = BigEndian.read rest := by
  have hdigit : (0 : Byte).toUInt8.toNat = 0 := rfl
  rw [BigEndian.read_cons, hdigit, Nat.zero_mul, Nat.zero_add]

/-- Any other first byte does. -/
theorem le_read_cons_of_ne {b : Byte} (hb : b ≠ 0) (rest : List Byte) :
    2 ^ (8 * rest.length) ≤ BigEndian.read (b :: rest) := by
  have hpos : 1 ≤ b.toUInt8.toNat := by
    by_contra hnot
    apply hb
    have hnat : b.toUInt8.toNat = 0 := by omega
    have hzero : b.toUInt8 = 0 := UInt8.toNat_inj.mp hnat
    rw [← Int8.toInt8_toUInt8 b, hzero]
    rfl
  have hmul := Nat.mul_le_mul_right (256 ^ rest.length) hpos
  rw [Nat.one_mul] at hmul
  rw [BigEndian.read_cons, pow_mul]
  exact hmul.trans (Nat.le_add_right _ _)

/-- The number needs all its bytes, unless the first is zero and the sign is in the next. -/
theorem le_size_read_cons_iff (b : Byte) (rest : List Byte) :
    8 * rest.length ≤ (BigEndian.read (b :: rest)).size ↔
      (b = 0 → ∀ next ∈ rest.head?, ¬0 ≤ next) := by
  cases rest with
  | nil => simp
  | cons next rest' =>
    have hnext := read_lt_half_iff next rest'
    rw [← Nat.size_le] at hnext
    by_cases hzero : b = 0
    · rw [hzero, read_zero_cons]
      simp only [List.head?_cons, Option.mem_some_iff, forall_eq', forall_const, ← hnext,
        List.length_cons]
      omega
    · have hge := le_read_cons_of_ne hzero (next :: rest')
      simp only [hzero, IsEmpty.forall_iff, iff_true]
      exact (Nat.lt_size.mpr hge).le

/-- Bytes are those of the number that is read of them, if there are as few as can be, and only
then. -/
theorem toByteArray_read_eq_iff (bytes : List Byte) :
    toByteArray (BigEndian.read bytes) = bytes ↔ Minimal bytes := by
  rw [toByteArray_read_eq_iff_length]
  cases bytes with
  | nil =>
    refine iff_of_false (by simp) ?_
    rintro ⟨b, rest, h, -⟩
    cases h
  | cons b rest =>
    -- the sign bounds the size from above, the first bytes bound it from below
    have hsign := read_lt_half_iff b rest
    rw [← Nat.size_le] at hsign
    rw [minimal_cons_iff, ← hsign, ← le_size_read_cons_iff, List.length_cons]
    constructor
    · intro h
      exact ⟨by omega, by omega⟩
    · rintro ⟨hle, hge⟩
      omega

/-- The bytes of a positive number are still those of a number with others behind them. -/
theorem toByteArray_append {n : ℕ} (hn : 0 < n) (w : List Byte) :
    toByteArray (n * 256 ^ w.length + BigEndian.read w : ℕ) = toByteArray n ++ w := by
  have hread : BigEndian.read (toByteArray n ++ w) = n * 256 ^ w.length + BigEndian.read w := by
    rw [BigEndian.read_append_list, read_toByteArray]
  have hminimal : Minimal (toByteArray n) := by
    rw [← toByteArray_read_eq_iff, read_toByteArray]
  rw [← hread, toByteArray_read_eq_iff]
  obtain ⟨b, rest, hbytes, hnonneg, hleast⟩ := hminimal
  rw [hbytes]
  refine ⟨b, rest ++ w, rfl, hnonneg, ?_⟩
  intro hzero
  cases rest with
  | nil =>
    -- a zero byte alone is zero
    have hn' := read_toByteArray n
    rw [hbytes, hzero] at hn'
    exact absurd hn'.symm hn.ne'
  | cons next rest => exact hleast hzero

end BigInteger
