/-
The reference conversion between bytes and base 58: long division.

Both directions divide a number in place. What is left of it begins at the first digit that is
not zero, and each remainder is written in front of those before it. The place where it is
written is counted down from the end of an array, and `Enough` is what a direction needs of that
count: of the bytes of a number each takes two remainders at most, of the digits in base 58 each
takes one.

The result is the digits of the same number in the other base, after as many zeros.
-/
import WavesNode.JavaString
import WavesNode.Radix

set_option autoImplicit false

namespace WavesNode

namespace Base58

/-! ## 1. Alphabet and bytes -/

/-- What a conversion throws. -/
inductive Thrown where
  /-- `Invalid base58 digit` -/
  | invalidDigit (b58Char : UInt16)
  /-- `Wrong char in Base58 string` -/
  | wrongChar (c : UInt16) (string : JavaString)
  | IllegalArgumentException (message : String)
  | NegativeArraySizeException
  | ArrayIndexOutOfBoundsException
  deriving DecidableEq

def Alphabet : List UInt16 :=
  "123456789ABCDEFGHJKLMNPQRSTUVWXYZabcdefghijkmnopqrstuvwxyz".toList.map fun c =>
    UInt16.ofNat c.toNat

/-- The letter of a digit. -/
def letter (d : ℕ) : UInt16 := Alphabet.getD d 0

def DecodeTable : List Byte := [
  -1, -1, -1, -1, -1, -1, -1, -1, -1, -1, -1, -1, -1, -1, -1, -1, -1, -1, -1, -1, -1, -1, -1, -1,
  -1, -1, -1, -1, -1, -1, -1, -1, -1, -1, -1, -1, -1, -1, -1, -1, -1, -1, -1, -1, -1, -1, -1, -1,
  -1, 0, 1, 2, 3, 4, 5, 6, 7, 8, -1, -1, -1, -1, -1, -1, -1, 9, 10, 11, 12, 13, 14, 15, 16, -1, 17,
  18, 19, 20, 21, -1, 22, 23, 24, 25, 26, 27, 28, 29, 30, 31, 32, -1, -1, -1, -1, -1, -1, 33, 34,
  35, 36, 37, 38, 39, 40, 41, 42, 43, -1, 44, 45, 46, 47, 48, 49, 50, 51, 52, 53, 54, 55, 56, 57]

/-- A byte without its sign. -/
def toUnsigned (x : Byte) : ℕ := x.toUInt8.toNat

def toByte (n : ℕ) : Byte := (UInt8.ofNat n).toInt8

theorem toUnsigned_lt (x : Byte) : toUnsigned x < 256 := x.toUInt8.toNat_lt

theorem toByte_toUnsigned (x : Byte) : toByte (toUnsigned x) = x := by
  rw [toByte, toUnsigned, UInt8.ofNat_toNat, Int8.toInt8_toUInt8]

theorem toUnsigned_toByte {n : ℕ} (h : n < 256) : toUnsigned (toByte n) = n := by
  rw [toUnsigned, toByte, UInt8.toUInt8_toInt8, UInt8.toNat_ofNat', Nat.mod_eq_of_lt h]

theorem toUnsigned_eq_zero {x : Byte} : toUnsigned x = 0 ↔ x = 0 := by
  constructor
  · intro h
    rw [← toByte_toUnsigned x, h]
    rfl
  · rintro rfl
    rfl

end Base58

open Base58

namespace StdBase58

/-! ## 2. The conversions -/

def toBase58 (c : UInt16) : Byte :=
  if c.toNat < DecodeTable.length then DecodeTable.getD c.toNat (-1) else -1

/-- `convert`, of the digits from the offset on: what is left in their places, and the
remainder. -/
def convert (from_ to_ rem : ℕ) : List ℕ → List ℕ × ℕ
  | [] => ([], rem)
  | digit :: number =>
    let tmp := rem * from_ + digit
    let (rest, mod) := convert from_ to_ (tmp % to_) number
    (tmp / to_ :: rest, mod)

/-- The loop of both directions, on the digits from `in` on: where it stops to write, and what
it has written from there on. -/
def loop (from_ to_ : ℕ) : (out : ℕ) → (input written : List ℕ) → Except Thrown (ℕ × List ℕ)
  | out, [], written => .ok (out, written)
  | 0, _ :: _, _ => .error .ArrayIndexOutOfBoundsException
  | out + 1, digit :: input, written =>
    let (number, mod) := convert from_ to_ 0 (digit :: input)
    loop from_ to_ out (if number.headD 0 = 0 then number.tail else number) (mod :: written)

def encode (bytes : List Byte) : Except Thrown JavaString :=
  let zeroCount := (bytes.takeWhile (· == 0)).length
  let length := toInt32 (bytes.length * 2)
  if length < 0 then .error .NegativeArraySizeException
  else
    match loop 256 58 length.toNat ((bytes.map toUnsigned).drop zeroCount) [] with
    | .error e => .error e
    | .ok (out, written) =>
      let output := written.map letter
      let skipped := (output.takeWhile (· == letter 0)).length
      if out + skipped < zeroCount then .error .ArrayIndexOutOfBoundsException
      else .ok (List.replicate zeroCount (letter 0) ++ output.drop skipped)

/-- The digit of a character, which is required to have one. -/
def digitOf (string : JavaString) (c : UInt16) : Except Thrown ℕ :=
  if toBase58 c = -1 then .error (.wrongChar c string) else .ok (toUnsigned (toBase58 c))

def decode (string : JavaString) : Except Thrown (List Byte) :=
  match string.mapM (digitOf string) with
  | .error e => .error e
  | .ok input =>
    let zeroCount := Radix.zeros input
    match loop 58 256 input.length (input.drop zeroCount) [] with
    | .error e => .error e
    | .ok (out, written) =>
      let output := List.replicate out 0 ++ written
      let start := out + Radix.zeros written
      if start < zeroCount then .error .ArrayIndexOutOfBoundsException
      else .ok ((output.drop (start - zeroCount)).map toByte)

/-! ## 3. One division -/

section Division

variable {from_ to_ : ℕ}

theorem convert_spec {rem : ℕ} {input : List ℕ} (hrem : rem < to_)
    (hinput : ∀ d ∈ input, d < from_) :
    (convert from_ to_ rem input).1.length = input.length ∧
      rem * from_ ^ input.length + Radix.value from_ input =
        to_ * Radix.value from_ (convert from_ to_ rem input).1 + (convert from_ to_ rem input).2 ∧
      (convert from_ to_ rem input).2 < to_ ∧
      ∀ d ∈ (convert from_ to_ rem input).1, d < from_ := by
  induction input generalizing rem with
  | nil =>
    refine ⟨rfl, ?_, hrem, by simp [convert]⟩
    simp [convert]
  | cons digit input ih =>
    have hto : 0 < to_ := by omega
    have hmod : (rem * from_ + digit) % to_ < to_ := Nat.mod_lt _ hto
    obtain ⟨hlen, hvalue, hlast, hdigits⟩ := ih hmod fun d hd =>
      hinput d (List.mem_cons_of_mem digit hd)
    simp only [convert]
    refine ⟨by rw [List.length_cons, List.length_cons, hlen], ?_, hlast, ?_⟩
    · rw [Radix.value_cons, Radix.value_cons, hlen, List.length_cons]
      have hsplit := Nat.div_add_mod (rem * from_ + digit) to_
      calc rem * from_ ^ (input.length + 1) +
            (digit * from_ ^ input.length + Radix.value from_ input)
          = (rem * from_ + digit) * from_ ^ input.length + Radix.value from_ input := by ring
        _ = to_ * ((rem * from_ + digit) / to_ * from_ ^ input.length) +
              ((rem * from_ + digit) % to_ * from_ ^ input.length +
                Radix.value from_ input) := by
            nth_rewrite 1 [← hsplit]
            ring
        _ = _ := by
            rw [hvalue]
            ring
    · intro d hd
      rcases List.mem_cons.mp hd with rfl | hd
      · -- the remainder is below the divisor, and the digit below the base
        have hdigit := hinput digit List.mem_cons_self
        have hmul : (rem + 1) * from_ ≤ to_ * from_ := Nat.mul_le_mul_right _ hrem
        refine Nat.div_lt_of_lt_mul ?_
        rw [Nat.add_mul] at hmul
        omega
      · exact hdigits d hd

/-- The first digit is divided as it stands. -/
theorem convert_cons (d : ℕ) (input : List ℕ) :
    convert from_ to_ 0 (d :: input) =
      (d / to_ :: (convert from_ to_ (d % to_) input).1,
        (convert from_ to_ (d % to_) input).2) := by
  simp only [convert, Nat.zero_mul, Nat.zero_add]

end Division

/-! ## 4. The loop -/

section Loop

variable {from_ to_ : ℕ}

/-- The places that are enough, when each digit after the first takes `c` divisions. -/
def Enough (to_ c places : ℕ) : List ℕ → Prop
  | [] => True
  | d :: tail => ∃ j, 1 ≤ j ∧ d < to_ ^ j ∧ j + c * tail.length ≤ places

theorem enough_of_length {c places : ℕ} (hc : 1 ≤ c) (hfrom : from_ ≤ to_ ^ c) {input : List ℕ}
    (hinput : ∀ d ∈ input, d < from_) (hplaces : c * input.length ≤ places) :
    Enough to_ c places input := by
  cases input with
  | nil => trivial
  | cons d tail =>
    have hd := hinput d List.mem_cons_self
    rw [List.length_cons, Nat.mul_succ] at hplaces
    exact ⟨c, hc, by omega, by omega⟩

theorem loop_spec {c : ℕ} (hto : 1 < to_) (hc : 1 ≤ c) (hfrom : from_ ≤ to_ ^ c) (extra : ℕ)
    {places : ℕ} {input : List ℕ} (written : List ℕ) (hinput : ∀ d ∈ input, d < from_)
    (henough : Enough to_ c places input) :
    ∃ out digits, loop from_ to_ (places + extra) input written = .ok (out, digits ++ written) ∧
      out + digits.length = places + extra ∧ extra ≤ out ∧ (∀ d ∈ digits, d < to_) ∧
      Radix.value to_ digits = Radix.value from_ input := by
  induction places generalizing input written with
  | zero =>
    cases input with
    | nil =>
      refine ⟨0 + extra, [], ?_, rfl, by omega, by simp, rfl⟩
      rw [loop]
      rfl
    | cons d tail =>
      obtain ⟨j, hj, -, hle⟩ := henough
      omega
  | succ places ih =>
    cases input with
    | nil =>
      refine ⟨places + 1 + extra, [], ?_, rfl, by omega, by simp, rfl⟩
      rw [loop]
      rfl
    | cons d tail =>
      obtain ⟨j, hj, hd, hle⟩ := henough
      obtain ⟨hlen, hvalue, hmod, hdigits⟩ := convert_spec (show 0 < to_ by omega) hinput
      rw [convert_cons] at hlen hvalue hmod hdigits
      generalize hrest : (convert from_ to_ (d % to_) tail).1 = rest at hlen hvalue hdigits
      generalize hlast : (convert from_ to_ (d % to_) tail).2 = mod at hvalue hmod
      have hlen' : rest.length = tail.length := Nat.succ.inj hlen
      -- what the next turn begins with: a first digit that became zero is left out
      have hnext : ∃ next, (if d / to_ = 0 then rest else d / to_ :: rest) = next ∧
          (∀ e ∈ next, e < from_) ∧ Enough to_ c places next ∧
          Radix.value from_ next = Radix.value from_ (d / to_ :: rest) := by
        by_cases hzero : d / to_ = 0
        · have hrestLt : ∀ e ∈ rest, e < from_ := fun e he =>
            hdigits e (List.mem_cons_of_mem _ he)
          refine ⟨rest, if_pos hzero, hrestLt, ?_, ?_⟩
          · exact enough_of_length hc hfrom hrestLt (by rw [hlen']; omega)
          · rw [Radix.value_cons, hzero, Nat.zero_mul, Nat.zero_add]
        · refine ⟨_, if_neg hzero, hdigits, ?_, rfl⟩
          obtain ⟨i, rfl⟩ : ∃ i, j = i + 1 := ⟨j - 1, by omega⟩
          have hquotient : d / to_ < to_ ^ i := by
            refine Nat.div_lt_of_lt_mul ?_
            rw [Nat.pow_succ, Nat.mul_comm] at hd
            exact hd
          have hi : 1 ≤ i := by
            rcases Nat.eq_zero_or_pos i with rfl | hpos
            · rw [pow_zero] at hquotient
              exact absurd (Nat.lt_one_iff.mp hquotient) hzero
            · exact hpos
          exact ⟨i, hi, hquotient, by rw [hlen']; omega⟩
      obtain ⟨next, hif, hnextLt, hnextEnough, hnextValue⟩ := hnext
      obtain ⟨out, digits, hloop, hcount, hextra, hdigitsLt, hsame⟩ :=
        ih (mod :: written) hnextLt hnextEnough
      refine ⟨out, digits ++ [mod], ?_, ?_, hextra, ?_, ?_⟩
      · rw [show places + 1 + extra = places + extra + 1 by omega, loop, convert_cons, hrest, hlast]
        show loop from_ to_ (places + extra) (if d / to_ = 0 then rest else d / to_ :: rest)
          (mod :: written) = _
        rw [hif, hloop, List.append_assoc, List.singleton_append]
      · rw [List.length_append, List.length_singleton]
        omega
      · intro e he
        rcases List.mem_append.mp he with he | he
        · exact hdigitsLt e he
        · rw [List.mem_singleton.mp he]
          exact hmod
      · rw [Radix.value_concat, hsame, hnextValue, Nat.mul_comm, ← hvalue, Nat.zero_mul,
          Nat.zero_add]

end Loop

/-! ## 5. Letters -/

theorem toBase58_letter {d : ℕ} (hd : d < 58) : toBase58 (letter d) = toByte d := by
  have hall : ∀ d < 58, toBase58 (letter d) = toByte d := by
    decide +kernel
  exact hall d hd

theorem letter_eq_zero {d : ℕ} (hd : d < 58) : letter d = letter 0 ↔ d = 0 := by
  have hall : ∀ d < 58, letter d = letter 0 → d = 0 := by
    decide +kernel
  constructor
  · exact hall d hd
  · rintro rfl
    rfl

/-- A character that is not refused has a digit of the base, and zero is the digit of `1`. -/
theorem toUnsigned_toBase58 {c : UInt16} (h : toBase58 c ≠ -1) :
    toUnsigned (toBase58 c) < 58 ∧ (toUnsigned (toBase58 c) = 0 ↔ c = letter 0) := by
  have hall : ∀ n < 123, DecodeTable.getD n (-1) ≠ -1 →
      toUnsigned (DecodeTable.getD n (-1)) < 58 ∧
        (toUnsigned (DecodeTable.getD n (-1)) = 0 ↔ UInt16.ofNat n = letter 0) := by
    decide +kernel
  have hlen : DecodeTable.length = 123 := by
    decide +kernel
  unfold toBase58 at h ⊢
  by_cases hc : c.toNat < DecodeTable.length
  · rw [if_pos hc] at h ⊢
    have hfact := hall c.toNat (hlen ▸ hc) h
    rw [UInt16.ofNat_toNat] at hfact
    exact hfact
  · rw [if_neg hc] at h
    exact absurd rfl h

theorem digitOf_letter (string : JavaString) {d : ℕ} (hd : d < 58) :
    digitOf string (letter d) = .ok d := by
  have hbyte := toUnsigned_toByte (show d < 256 by omega)
  have hne : toByte d ≠ -1 := by
    intro h
    rw [h] at hbyte
    have hminus : toUnsigned (-1) = 255 := by decide
    omega
  rw [digitOf, toBase58_letter hd, if_neg hne, hbyte]

/-! ## 6. What the conversions return -/

/-- The letters that stand for a list of bytes. -/
def encoded (bytes : List ℕ) : JavaString :=
  List.replicate (Radix.zeros bytes) (letter 0) ++
    (Radix.digits 58 (Radix.value 256 bytes)).map letter

/-- The bytes that a list of digits stands for. -/
def decoded (input : List ℕ) : List Byte :=
  (List.replicate (Radix.zeros input) 0 ++ Radix.digits 256 (Radix.value 58 input)).map toByte

theorem takeWhile_zero_length (bytes : List Byte) :
    (bytes.takeWhile (· == 0)).length = Radix.zeros (bytes.map toUnsigned) := by
  induction bytes with
  | nil => rfl
  | cons x bytes ih =>
    by_cases hx : x = 0
    · rw [hx, List.takeWhile_cons_of_pos (by decide), List.length_cons, ih, List.map_cons]
      rfl
    · have hne : toUnsigned x ≠ 0 := mt toUnsigned_eq_zero.mp hx
      rw [List.takeWhile_cons_of_neg (by simpa using hx), List.map_cons,
        Radix.zeros_cons_of_ne hne]
      rfl

theorem drop_letters {digits : List ℕ} (hdigits : ∀ d ∈ digits, d < 58) :
    (digits.map letter).drop ((digits.map letter).takeWhile (· == letter 0)).length =
      (Radix.significant digits).map letter := by
  induction digits with
  | nil => rfl
  | cons d digits ih =>
    have hd := letter_eq_zero (hdigits d List.mem_cons_self)
    by_cases hzero : d = 0
    · rw [hzero, List.map_cons, List.takeWhile_cons_of_pos (by simp), List.length_cons,
        List.drop_succ_cons, ih fun e he => hdigits e (List.mem_cons_of_mem d he),
        Radix.significant_cons_zero]
    · have hne : ¬ (letter d == letter 0) = true := by
        rw [beq_iff_eq, hd]
        exact hzero
      rw [List.map_cons, List.takeWhile_cons_of_neg (p := (· == letter 0)) hne,
        List.length_nil, List.drop_zero,
        Radix.significant_cons_of_ne hzero, List.map_cons]

theorem map_toUnsigned_lt (bytes : List Byte) : ∀ d ∈ bytes.map toUnsigned, d < 256 := by
  intro d hd
  obtain ⟨x, -, rfl⟩ := List.mem_map.mp hd
  exact toUnsigned_lt x

theorem significant_mem {l : List ℕ} {d : ℕ} (hd : d ∈ Radix.significant l) : d ∈ l :=
  List.dropWhile_subset _ hd

/-- Of fewer than 2 to the 30th bytes the letters are returned. -/
theorem encode_eq {bytes : List Byte} (hlen : bytes.length < 2 ^ 30) :
    encode bytes = .ok (encoded (bytes.map toUnsigned)) := by
  have hlt := map_toUnsigned_lt bytes
  have hcount := Radix.length_eq (bytes.map toUnsigned)
  rw [List.length_map] at hcount
  generalize hzeros : Radix.zeros (bytes.map toUnsigned) = z at hcount
  have henough : Enough 58 2 (2 * (Radix.significant (bytes.map toUnsigned)).length)
      (Radix.significant (bytes.map toUnsigned)) :=
    enough_of_length (by omega) (by norm_num : 256 ≤ 58 ^ 2)
      (fun d hd => hlt d (significant_mem hd)) (Nat.le_refl _)
  obtain ⟨out, digits, hloop, hplaces, hextra, hdigits, hvalue⟩ :=
    loop_spec (by omega) (by omega) (by norm_num : 256 ≤ 58 ^ 2) (2 * z) []
      (fun d hd => hlt d (significant_mem hd)) henough
  rw [List.append_nil] at hloop
  have hsize : toInt32 (bytes.length * 2) = ((bytes.length * 2 : ℕ) : ℤ) := by
    rw [toInt32_of_range (by omega) (by omega)]
    omega
  have hsum : bytes.length * 2 =
      2 * (Radix.significant (bytes.map toUnsigned)).length + 2 * z := by omega
  unfold encode
  simp only [hsize, takeWhile_zero_length, hzeros]
  rw [if_neg (by omega), Int.toNat_natCast, ← hzeros, Radix.drop_zeros, hzeros, hsum, hloop]
  show (if out + _ < z then _ else _) = _
  rw [if_neg (by omega), drop_letters hdigits, Radix.significant_eq (by omega) hdigits, hvalue,
    Radix.value_significant, encoded, hzeros]

/-- Of more bytes the size of the array is negative. -/
theorem encode_of_le {bytes : List Byte} (hlen : 2 ^ 30 ≤ bytes.length)
    (harray : bytes.length < 2 ^ 31) : encode bytes = .error .NegativeArraySizeException := by
  have hsize : toInt32 (bytes.length * 2) < 0 := by
    rw [toInt32_of_wrap (by omega) (by omega)]
    omega
  unfold encode
  generalize toInt32 (bytes.length * 2) = length at hsize ⊢
  show (if length < 0 then _ else _) = _
  rw [if_pos hsize]

/-- Every character has a digit. -/
def Valid (string : JavaString) : Prop := ∀ c ∈ string, toBase58 c ≠ -1

/-- The digits of the characters. -/
def digitsOf (string : JavaString) : List ℕ := string.map fun c => toUnsigned (toBase58 c)

theorem digitsOf_lt {string : JavaString} (hvalid : Valid string) :
    ∀ d ∈ digitsOf string, d < 58 := by
  intro d hd
  obtain ⟨c, hc, rfl⟩ := List.mem_map.mp hd
  exact (toUnsigned_toBase58 (hvalid c hc)).1

theorem takeWhile_one_length {string : JavaString} (hvalid : Valid string) :
    (string.takeWhile (· == letter 0)).length = Radix.zeros (digitsOf string) := by
  induction string with
  | nil => rfl
  | cons c string ih =>
    have hzero := (toUnsigned_toBase58 (hvalid c List.mem_cons_self)).2
    have hrest := ih fun d hd => hvalid d (List.mem_cons_of_mem c hd)
    by_cases hc : c = letter 0
    · have hhead : digitsOf (c :: string) = 0 :: digitsOf string := by
        rw [digitsOf, List.map_cons, hzero.mpr hc]
        rfl
      rw [hhead, Radix.zeros_cons_zero, List.takeWhile_cons_of_pos (by simpa using hc),
        List.length_cons, hrest]
    · rw [List.takeWhile_cons_of_neg (by simpa using hc), digitsOf, List.map_cons,
        Radix.zeros_cons_of_ne (mt hzero.mp hc)]
      rfl

theorem mapM_digitOf (string : JavaString) {chars : JavaString} (hvalid : Valid chars) :
    chars.mapM (digitOf string) = .ok (digitsOf chars) := by
  induction chars with
  | nil => rfl
  | cons c chars ih =>
    have hc : digitOf string c = .ok (toUnsigned (toBase58 c)) :=
      if_neg (hvalid c List.mem_cons_self)
    rw [List.mapM_cons, hc, ih fun d hd => hvalid d (List.mem_cons_of_mem c hd)]
    rfl

/-- Of characters that have digits the bytes are returned. -/
theorem decode_eq {string : JavaString} (hvalid : Valid string) :
    decode string = .ok (decoded (digitsOf string)) := by
  have hinput := mapM_digitOf string hvalid
  have hlt := digitsOf_lt hvalid
  generalize digitsOf string = input at hinput hlt ⊢
  have hcount := Radix.length_eq input
  have henough : Enough 256 1 (Radix.significant input).length (Radix.significant input) :=
    enough_of_length (by omega) (by norm_num : 58 ≤ 256 ^ 1)
      (fun d hd => hlt d (significant_mem hd)) (by omega)
  obtain ⟨out, digits, hloop, hplaces, hextra, hdigits, hvalue⟩ :=
    loop_spec (by omega) (by omega) (by norm_num : 58 ≤ 256 ^ 1) (Radix.zeros input) []
      (fun d hd => hlt d (significant_mem hd)) henough
  rw [List.append_nil] at hloop
  have hsum : input.length = (Radix.significant input).length + Radix.zeros input := by omega
  unfold decode
  simp only [hinput, Radix.drop_zeros]
  rw [hsum, hloop]
  show (if out + Radix.zeros digits < Radix.zeros input then _ else _) = _
  -- in front of what is written the array holds zeros
  have hout : List.replicate out 0 ++ digits =
      List.replicate (out + Radix.zeros digits - Radix.zeros input) 0 ++
        (List.replicate (Radix.zeros input) 0 ++ Radix.significant digits) := by
    rw [← List.append_assoc, List.replicate_append_replicate]
    rw [show out + Radix.zeros digits - Radix.zeros input + Radix.zeros input =
      out + Radix.zeros digits by omega]
    rw [← List.replicate_append_replicate, List.append_assoc, Radix.replicate_append_significant]
  rw [if_neg (by omega), hout, List.drop_left' (List.length_replicate ..),
    Radix.significant_eq (by omega) hdigits, hvalue, Radix.value_significant, decoded]

end StdBase58

end WavesNode
