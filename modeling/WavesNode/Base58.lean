/-
Base 58, as the node calls it: the fast conversion, and the reference one where it throws.

A string is decoded as the reference decodes it: what the fast conversion returns is what the
reference returns, and what it throws is not seen. Of bytes the two conversions do not agree.
The fast one encodes all that the buffer's size can be computed for, but it decodes only a
number that fits all words but the first, and the letters of a short array need that word too.
-/
import WavesNode.FastBase58

set_option autoImplicit false

namespace WavesNode

namespace Base58

/-! ## 1. The conversions -/

/-- A conversion, and another one for what it throws on. -/
def fallback {α β : Type} (useSlowBase58 : Bool) (fast slow : α → Except Thrown β) (a : α) :
    Except Thrown β :=
  if useSlowBase58 then slow a
  else
    match fast a with
    | .ok b => .ok b
    | .error _ => slow a

def encode (useSlowBase58 : Bool) : List Byte → Except Thrown JavaString :=
  fallback useSlowBase58 FastBase58.encode StdBase58.encode

def decode (useSlowBase58 : Bool) : JavaString → Except Thrown (List Byte) :=
  fallback useSlowBase58 FastBase58.decode StdBase58.decode

/-- An array of the machine: its size is a small word. -/
structure ByteArray where
  bytes : List Byte
  size_lt : bytes.length < 2 ^ 31

/-- A string of the machine. -/
structure CharArray where
  chars : JavaString
  size_lt : chars.length < 2 ^ 31

/-! ## 2. Strings -/

/-- What the fast conversion returns, the reference returns. -/
theorem fallback_eq {α β : Type} {fast slow : α → Except Thrown β} {a : α}
    (h : ∀ b, fast a = .ok b → slow a = .ok b) (useSlowBase58 : Bool) :
    fallback useSlowBase58 fast slow a = slow a := by
  unfold fallback
  by_cases hslow : useSlowBase58 = true
  · rw [if_pos hslow]
  · rw [if_neg hslow]
    cases hfast : fast a with
    | error e => rfl
    | ok b => exact (h b hfast).symm

theorem decode_eq (useSlowBase58 : Bool) (str : CharArray) :
    decode useSlowBase58 str.chars = StdBase58.decode str.chars := by
  refine fallback_eq (fun bytes hfast => ?_) useSlowBase58
  obtain ⟨hvalid, rfl⟩ := FastBase58.decoded_of_decode str.size_lt hfast
  exact StdBase58.decode_eq hvalid

/-! ## 3. Bytes -/

/-- Both conversions return the same letters, and both return the bytes again. -/
def Agree (b : ByteArray) : Prop :=
  ∃ str, FastBase58.encode b.bytes = .ok str ∧ StdBase58.encode b.bytes = .ok str ∧
    FastBase58.decode str = .ok b.bytes ∧ StdBase58.decode str = .ok b.bytes

/-- The bytes, as digits. -/
def unsigned (b : ByteArray) : List ℕ := b.bytes.map toUnsigned

/-- The number of an array. -/
def number (b : ByteArray) : ℕ := Radix.value 256 (unsigned b)

/-- The digits that the number of an array has in base 58, with a zero for each byte in front
that is zero. -/
def digitCount (b : ByteArray) : ℕ :=
  Radix.zeros (unsigned b) + (Radix.digits 58 (number b)).length

/-- The sizes are small words, and the number fits the words of 32 bits that so many digits are
given, but for the first word. -/
def Convertible (b : ByteArray) : Prop :=
  b.bytes.length < 2 ^ 30 ∧ (b.bytes.length - Radix.zeros (unsigned b)) * 138 < 2 ^ 31 ∧
    (digitCount b + 3) * 3 < 2 ^ 31 ∧ number b < (2 ^ 32) ^ ((digitCount b + 3) / 4 - 1)

section Letters

variable (b : ByteArray)

/-- The digits of the letters. -/
def digits58 : List ℕ :=
  List.replicate (Radix.zeros (unsigned b)) 0 ++ Radix.digits 58 (number b)

theorem digits58_lt : ∀ d ∈ digits58 b, d < 58 := by
  intro d hd
  rcases List.mem_append.mp hd with hd | hd
  · rw [List.eq_of_mem_replicate hd]
    omega
  · exact Radix.digits_lt (by omega) hd

theorem length_digits58 : (digits58 b).length = digitCount b := by
  rw [digits58, List.length_append, List.length_replicate, digitCount]

theorem encoded_eq : StdBase58.encoded (unsigned b) = (digits58 b).map letter := by
  rw [StdBase58.encoded, digits58, List.map_append, List.map_replicate, number]

theorem toBase58_encoded {c : UInt16} (hc : c ∈ (digits58 b).map letter) :
    ∃ d ∈ digits58 b, c = letter d ∧ StdBase58.toBase58 c = toByte d := by
  obtain ⟨d, hd, rfl⟩ := List.mem_map.mp hc
  exact ⟨d, hd, rfl, StdBase58.toBase58_letter (digits58_lt b d hd)⟩

theorem valid_encoded : StdBase58.Valid (StdBase58.encoded (unsigned b)) := by
  intro c hc
  rw [encoded_eq] at hc
  obtain ⟨d, hd, -, hbyte⟩ := toBase58_encoded b hc
  have hlt := digits58_lt b d hd
  have hunsigned := toUnsigned_toByte (show d < 256 by omega)
  rw [hbyte]
  intro hminus
  rw [hminus] at hunsigned
  have h255 : toUnsigned (-1) = 255 := by decide
  omega

theorem digitsOf_encoded : StdBase58.digitsOf (StdBase58.encoded (unsigned b)) = digits58 b := by
  rw [encoded_eq, StdBase58.digitsOf, List.map_map]
  refine (List.map_congr_left fun d hd => ?_).trans (List.map_id _)
  have hlt := digits58_lt b d hd
  rw [Function.comp_apply, StdBase58.toBase58_letter hlt, toUnsigned_toByte (by omega)]
  rfl

theorem value_digits58 : Radix.value 58 (digits58 b) = number b := by
  rw [digits58, Radix.value_append, Radix.value_replicate_zero, Radix.value_digits]
  omega

/-- The letters stand for the bytes. -/
theorem decoded_digits58 : StdBase58.decoded (digits58 b) = b.bytes := by
  have hlt := StdBase58.map_toUnsigned_lt b.bytes
  have hsig := Radix.significant_eq (by omega : 1 < 256) hlt
  rw [StdBase58.decoded, value_digits58, digits58, Radix.zeros_replicate_append_digits, number,
    unsigned, ← hsig, Radix.replicate_append_significant, List.map_map]
  refine (List.map_congr_left fun x _ => ?_).trans (List.map_id _)
  exact toByte_toUnsigned x

theorem length_encoded : (StdBase58.encoded (unsigned b)).length = digitCount b := by
  rw [encoded_eq, List.length_map, length_digits58]

/-- There are no more digits than the buffer has room for. -/
theorem digitCount_le : digitCount b ≤ Radix.zeros (unsigned b) +
    ((FastBase58.significantBytes b.bytes).length * 138 / 100 + 1) := by
  have hlt := Radix.value_lt (by omega : 1 < 256)
    (FastBase58.significantBytes_lt b.bytes)
  have hnumber : Radix.value 256 (FastBase58.significantBytes b.bytes) = number b :=
    Radix.value_significant _ _
  rw [hnumber] at hlt
  have hle := (Radix.length_digits_le_iff (by omega : 1 < 58)).mpr
    (hlt.trans (FastBase58.pow_le_bufferSize _))
  unfold digitCount
  omega

theorem decode_encoded :
    StdBase58.decode (StdBase58.encoded (unsigned b)) = .ok b.bytes := by
  rw [StdBase58.decode_eq (valid_encoded b), digitsOf_encoded, decoded_digits58]

theorem fits_iff : FastBase58.Fits (StdBase58.encoded (unsigned b)) ↔
    number b < (2 ^ 32) ^ ((digitCount b + 3) / 4 - 1) := by
  rw [FastBase58.Fits, digitsOf_encoded, value_digits58, length_encoded]

end Letters

/-! ## 4. When they agree -/

section Agreement

variable {b : ByteArray}

/-- The letters are decoded fast exactly when the number fits and the sizes are small words. -/
theorem fast_decode_iff (hcount : digitCount b < 1200000000) :
    FastBase58.decode (StdBase58.encoded (unsigned b)) = .ok b.bytes ↔
      (digitCount b + 3) * 3 < 2 ^ 31 ∧ number b < (2 ^ 32) ^ ((digitCount b + 3) / 4 - 1) := by
  have hlen := length_encoded b
  have hvalid := valid_encoded b
  have hfits := fits_iff b
  have hdecoded : StdBase58.decoded (StdBase58.digitsOf (StdBase58.encoded (unsigned b))) =
      b.bytes := by
    rw [digitsOf_encoded, decoded_digits58]
  generalize StdBase58.encoded (unsigned b) = str at *
  by_cases hempty : str = []
  · -- no letters: there are no bytes, and their number is zero
    subst hempty
    have hbytes : b.bytes = [] := hdecoded.symm
    have hzero : FastBase58.Fits [] := by
      show 0 < (2 ^ 32) ^ ((0 + 3) / 4 - 1)
      positivity
    rw [List.length_nil] at hlen
    rw [hbytes]
    exact iff_of_true rfl ⟨by omega, hfits.mp hzero⟩
  by_cases hall : FastBase58.Fits str
  · have hcode := FastBase58.decode_eq hempty (by omega) hvalid hall
    rw [hcode, hdecoded, ← hfits, and_iff_left hall]
    rw [toInt32_of_range (show -2147483648 ≤ (str.length : ℤ) + 3 by omega) (by omega)]
    by_cases hsize : (digitCount b + 3) * 3 < 2 ^ 31
    · rw [toInt32_of_range (by omega) (by omega), if_neg (by omega), if_neg (by omega)]
      exact iff_of_true rfl hsize
    · rw [toInt32_of_wrap (by omega) (by omega), if_pos (by omega)]
      refine iff_of_false (fun h => ?_) hsize
      cases h
  · obtain ⟨e, he⟩ := FastBase58.decode_error hempty (by omega) fun h => hall h.2
    rw [he]
    refine iff_of_false (fun h => ?_) fun h => hall (hfits.mpr h.2)
    cases h

/-- The conversions agree on an array exactly when it is convertible. -/
theorem agree_iff (b : ByteArray) : Agree b ↔ Convertible b := by
  have harray := b.size_lt
  have hcount := FastBase58.length_eq_zeros b.bytes
  have hdigits := digitCount_le b
  have hzeros : Radix.zeros (unsigned b) = Radix.zeros (b.bytes.map toUnsigned) := rfl
  have hsig : (FastBase58.significantBytes b.bytes).length =
      b.bytes.length - Radix.zeros (unsigned b) := by omega
  unfold Convertible
  rw [← hsig]
  by_cases hstd : b.bytes.length < 2 ^ 30
  · by_cases hfast : (FastBase58.significantBytes b.bytes).length * 138 < 2 ^ 31
    · have hstdCode := StdBase58.encode_eq hstd
      have hfastCode := FastBase58.encode_eq hfast hstd
      have hiff := @fast_decode_iff b (by omega)
      constructor
      · rintro ⟨str, -, hstr, hdecode, -⟩
        obtain rfl := Except.ok.inj (hstdCode.symm.trans hstr)
        exact ⟨hstd, hfast, hiff.mp hdecode⟩
      · rintro ⟨-, -, hsizes⟩
        exact ⟨_, hfastCode, hstdCode, hiff.mpr hsizes, decode_encoded b⟩
    · obtain ⟨e, he⟩ := FastBase58.encode_of_le (Nat.le_of_not_lt hfast) harray
      refine iff_of_false ?_ fun h => hfast h.2.1
      rintro ⟨str, hstr, -⟩
      rw [he] at hstr
      cases hstr
  · have he := StdBase58.encode_of_le (Nat.le_of_not_lt hstd) harray
    refine iff_of_false ?_ fun h => hstd h.1
    rintro ⟨str, -, hstr, -⟩
    rw [he] at hstr
    cases hstr

/-- What is encoded is what the reference encodes, as long as its array is not too large. -/
theorem encode_eq (useSlowBase58 : Bool) (hstd : b.bytes.length < 2 ^ 30) :
    encode useSlowBase58 b.bytes = StdBase58.encode b.bytes := by
  refine fallback_eq (fun str hfast => ?_) useSlowBase58
  by_cases hsize : (FastBase58.significantBytes b.bytes).length * 138 < 2 ^ 31
  · rw [StdBase58.encode_eq hstd]
    exact (FastBase58.encode_eq hsize hstd).symm.trans hfast
  · obtain ⟨e, he⟩ := FastBase58.encode_of_le (Nat.le_of_not_lt hsize) b.size_lt
    rw [he] at hfast
    cases hfast

end Agreement

/-- **Base 58.** The two conversions agree on an array exactly when its number fits the words
that its letters are given, but for the first, and the sizes are small words; and every string
is decoded as the reference decodes it. -/
theorem agree_iff_and_decode_eq (b : ByteArray) (useSlowBase58 : Bool) (str : CharArray) :
    (Agree b ↔ Convertible b) ∧
      decode useSlowBase58 str.chars = StdBase58.decode str.chars :=
  ⟨agree_iff b, decode_eq useSlowBase58 str⟩

/-- The one byte 1 is encoded as `2` by both, and the fast conversion refuses to decode it. -/
theorem not_agree_one :
    FastBase58.encode [1] = .ok [50] ∧ StdBase58.encode [1] = .ok [50] ∧
      StdBase58.decode [50] = .ok [1] ∧
      FastBase58.decode [50] =
        .error (.IllegalArgumentException "Output number too big (carry to the next int32)") ∧
      ¬ Agree ⟨[1], by decide⟩ := by
  have hfast : FastBase58.encode [1] = .ok [50] := by
    decide +kernel
  have hdecode : FastBase58.decode [50] =
      .error (.IllegalArgumentException "Output number too big (carry to the next int32)") := by
    decide +kernel
  refine ⟨hfast, by decide +kernel, by decide +kernel, hdecode, ?_⟩
  rintro ⟨str, hstr, -, hbytes, -⟩
  obtain rfl := Except.ok.inj (hfast.symm.trans hstr)
  rw [hdecode] at hbytes
  cases hbytes

end Base58

end WavesNode
