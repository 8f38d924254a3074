/-
Big-endian words.

The wire formats write a machine word as its bytes, most significant first, and
read one back from as many bytes. Both directions go through the unsigned value of
the word; the signed word is what the value wraps to.
-/
import WavesNode.Long
import Mathlib.Data.List.Induction

set_option autoImplicit false

namespace BigEndian

/-- The last `len` base-256 digits of a number, most significant first. -/
def write : (len value : ℕ) → List Byte
  | 0, _ => []
  | len + 1, value => write len (value / 256) ++ [(UInt8.ofNat value).toInt8]

/-- The number whose base-256 digits are given. -/
def read (bytes : List Byte) : ℕ := bytes.foldl (fun n x => 256 * n + x.toUInt8.toNat) 0

@[simp] theorem length_write (len value : ℕ) : (write len value).length = len := by
  induction len generalizing value with
  | zero => rfl
  | succ len ih => rw [write, List.length_append, ih, List.length_singleton]

theorem read_append (l : List Byte) (x : Byte) :
    read (l ++ [x]) = 256 * read l + x.toUInt8.toNat := by
  rw [read, List.foldl_append]
  rfl

/-- What is read is what was written, up to the width. -/
theorem read_write (len value : ℕ) : read (write len value) = value % 256 ^ len := by
  induction len generalizing value with
  | zero => rw [pow_zero, Nat.mod_one]; rfl
  | succ len ih =>
    have hlast : (UInt8.ofNat value).toInt8.toUInt8.toNat = value % 256 := by
      rw [UInt8.toUInt8_toInt8, UInt8.toNat_ofNat']
    rw [write, read_append, ih, hlast, pow_succ, Nat.mul_comm (256 ^ len), Nat.mod_mul]
    omega

/-- The digits of what was read are the bytes it was read from. -/
theorem write_read (bytes : List Byte) : write bytes.length (read bytes) = bytes := by
  induction bytes using List.reverseRecOn with
  | nil => rfl
  | append_singleton l x ih =>
    have hx : x.toUInt8.toNat < 256 := x.toUInt8.toNat_lt
    have hlast : UInt8.ofNat (256 * read l + x.toUInt8.toNat) = x.toUInt8 := by
      apply UInt8.toNat_inj.mp
      rw [UInt8.toNat_ofNat']
      omega
    rw [List.length_append, List.length_singleton, write, read_append, hlast,
      Int8.toInt8_toUInt8, Nat.mul_add_div (by omega), Nat.div_eq_of_lt hx, Nat.add_zero, ih]

theorem read_lt (bytes : List Byte) : read bytes < 256 ^ bytes.length := by
  induction bytes using List.reverseRecOn with
  | nil => exact Nat.one_pos
  | append_singleton l x ih =>
    have hx : x.toUInt8.toNat < 256 := x.toUInt8.toNat_lt
    rw [List.length_append, List.length_singleton, read_append, pow_succ]
    omega
end BigEndian

/-- `Longs.toByteArray`. -/
def Longs.toByteArray (x : Long) : List Byte := BigEndian.write 8 x.toUInt64.toNat

/-- `Longs.fromByteArray`, of eight bytes. -/
def Longs.fromByteArray (bytes : List Byte) : Long := Int64.ofNat (BigEndian.read bytes)

/-- `Ints.toByteArray`. -/
def Ints.toByteArray (x : ℕ) : List Byte := BigEndian.write 4 x

/-- `Shorts.toByteArray`. -/
def Shorts.toByteArray (x : ℕ) : List Byte := BigEndian.write 2 x

@[simp] theorem Longs.length_toByteArray (x : Long) : (Longs.toByteArray x).length = 8 :=
  BigEndian.length_write 8 _

@[simp] theorem Shorts.length_toByteArray (x : ℕ) : (Shorts.toByteArray x).length = 2 :=
  BigEndian.length_write 2 _

/-- A long is read as it was written. -/
theorem Longs.fromByteArray_toByteArray (x : Long) :
    Longs.fromByteArray (Longs.toByteArray x) = x := by
  have hlt : x.toUInt64.toNat < 256 ^ 8 := x.toUInt64.toNat_lt
  rw [Longs.fromByteArray, Longs.toByteArray, BigEndian.read_write, Nat.mod_eq_of_lt hlt,
    ← UInt64.toInt64_ofNat', UInt64.ofNat_toNat, Int64.toInt64_toUInt64]

/-- A long that was read is written as the bytes it was read from. -/
theorem Longs.toByteArray_fromByteArray {bytes : List Byte} (h : bytes.length = 8) :
    Longs.toByteArray (Longs.fromByteArray bytes) = bytes := by
  have hlt : BigEndian.read bytes < 2 ^ 64 := by
    have hread := BigEndian.read_lt bytes
    rw [h] at hread
    exact hread
  have hvalue : (Int64.ofNat (BigEndian.read bytes)).toUInt64.toNat = BigEndian.read bytes := by
    rw [← UInt64.toInt64_ofNat', UInt64.toUInt64_toInt64, UInt64.toNat_ofNat', Nat.mod_eq_of_lt hlt]
  rw [Longs.toByteArray, Longs.fromByteArray, hvalue, ← h, BigEndian.write_read]

/-- So is a short. -/
theorem Shorts.toByteArray_ofInt {bytes : List Byte} (h : bytes.length = 2) :
    Shorts.toByteArray (Int16.ofInt (Int16.ofNat (BigEndian.read bytes)).toInt).toUInt16.toNat =
      bytes := by
  have hlt : BigEndian.read bytes < 2 ^ 16 := by
    have hread := BigEndian.read_lt bytes
    rw [h] at hread
    exact hread
  have hvalue : (Int16.ofNat (BigEndian.read bytes)).toUInt16.toNat = BigEndian.read bytes := by
    rw [← UInt16.toInt16_ofNat', UInt16.toUInt16_toInt16, UInt16.toNat_ofNat', Nat.mod_eq_of_lt hlt]
  rw [Int16.ofInt_toInt, hvalue, Shorts.toByteArray, ← h, BigEndian.write_read]

/-- So is a length that is not negative. -/
theorem Shorts.toByteArray_toNat {bytes : List Byte} (h : bytes.length = 2)
    (hsize : 0 ≤ (Int16.ofNat (BigEndian.read bytes)).toInt) :
    Shorts.toByteArray (Int16.ofNat (BigEndian.read bytes)).toInt.toNat = bytes := by
  have hlt : BigEndian.read bytes < 2 ^ 16 := by
    have hread := BigEndian.read_lt bytes
    rw [h] at hread
    exact hread
  have hvalue : (Int16.ofNat (BigEndian.read bytes)).toInt.toNat = BigEndian.read bytes := by
    rw [Int16.toInt_ofNat', Int.bmod_def, Int16.size] at hsize ⊢
    omega
  rw [hvalue, Shorts.toByteArray, ← h, BigEndian.write_read]

/-- So is a size that is not negative. -/
theorem Ints.toByteArray_toNat {bytes : List Byte} (h : bytes.length = 4)
    (hsize : 0 ≤ (Int32.ofNat (BigEndian.read bytes)).toInt) :
    Ints.toByteArray (Int32.ofNat (BigEndian.read bytes)).toInt.toNat = bytes := by
  have hlt : BigEndian.read bytes < 2 ^ 32 := by
    have hread := BigEndian.read_lt bytes
    rw [h] at hread
    exact hread
  have hvalue : (Int32.ofNat (BigEndian.read bytes)).toInt.toNat = BigEndian.read bytes := by
    rw [Int32.toInt_ofNat', Int.bmod_def, Int32.size] at hsize ⊢
    omega
  rw [hvalue, Ints.toByteArray, ← h, BigEndian.write_read]
