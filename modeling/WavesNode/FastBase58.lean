/-
The fast conversion between bytes and base 58.

To encode, a byte is carried through a buffer of digits, from its end to the first place that
has been used. The buffer is large enough for every number of so many bytes, as long as its
size fits the small word. To decode, a digit is carried through an array of words of 32 bits,
but the loop over the array stops before its first word: that word stays zero, and a carry into
it is refused. So only numbers that fit the other words are decoded.

An index that runs down to minus one is kept one higher than in the source.
-/
import WavesNode.StdBase58

set_option autoImplicit false

namespace WavesNode

open Base58

namespace FastBase58

/-! ## 1. The conversions -/

/-- The loop of one byte: `endIndex` and `high` are one higher than in the source. -/
def encodeByte (high : ℕ) : (endIndex carry : ℕ) → (buffer : List ℕ) →
    Except Thrown (ℕ × List ℕ)
  | 0, carry, buffer =>
    if carry ≠ 0 then .error .ArrayIndexOutOfBoundsException else .ok (0, buffer)
  | endIndex + 1, carry, buffer =>
    if endIndex + 1 > high ∨ carry ≠ 0 then
      let sum := carry + 256 * buffer.getD endIndex 0
      encodeByte high endIndex (sum / 58) (buffer.set endIndex (sum % 58))
    else .ok (endIndex + 1, buffer)

/-- The loop over the bytes. -/
def encodeBytes (bufferSize : ℕ) : (bytes : List ℕ) → (high : ℕ) → (buffer : List ℕ) →
    Except Thrown (List ℕ)
  | [], _, buffer => .ok buffer
  | byte :: bytes, high, buffer =>
    match encodeByte high bufferSize byte buffer with
    | .error e => .error e
    | .ok (high, buffer) => encodeBytes bufferSize bytes high buffer

def encode (bin : List Byte) : Except Thrown JavaString :=
  if bin.isEmpty then .ok []
  else
    let zeroCount := (bin.takeWhile (· == 0)).length
    let bufferSize := (toInt32 ((bin.length - zeroCount) * 138)).tdiv 100 + 1
    if bufferSize < 0 then .error .NegativeArraySizeException
    else
      match encodeBytes bufferSize.toNat ((bin.map toUnsigned).drop zeroCount) bufferSize.toNat
        (List.replicate bufferSize.toNat 0) with
      | .error e => .error e
      | .ok buffer =>
        let startIndex := Radix.zeros buffer
        if toInt32 (bufferSize - startIndex + zeroCount) < 0 then
          .error .NegativeArraySizeException
        else .ok (List.replicate zeroCount (letter 0) ++ (buffer.drop startIndex).map letter)

/-- The loop of one digit, which does not come to the first word. -/
def addDigit : (outIndex base58EncMask : ℕ) → (outArray : List ℕ) → List ℕ × ℕ
  | 0, base58EncMask, outArray => (outArray, base58EncMask)
  | outIndex + 1, base58EncMask, outArray =>
    let longValue := outArray.getD (outIndex + 1) 0 * 58 + base58EncMask
    addDigit outIndex ((longValue >>> 32) &&& 0x3f)
      (outArray.set (outIndex + 1) (longValue &&& 0xffffffff))

/-- The loop over the characters. -/
def addChar (zeroMask : ℕ) (outArray : List ℕ) (b58Char : UInt16) : Except Thrown (List ℕ) :=
  if DecodeTable.length ≤ b58Char.toNat ∨ DecodeTable.getD b58Char.toNat (-1) = -1 then
    .error (.invalidDigit b58Char)
  else
    let digit := toUnsigned (DecodeTable.getD b58Char.toNat (-1))
    let (outArray, base58EncMask) := addDigit (outArray.length - 1) digit outArray
    if 0 < base58EncMask then
      .error (.IllegalArgumentException "Output number too big (carry to the next int32)")
    else if outArray.getD 0 0 &&& zeroMask ≠ 0 then
      .error (.IllegalArgumentException "Output number too big (last int32 filled too far)")
    else .ok outArray

/-- The last so many bytes of a word, the highest first. The shift of the source is a byte that
goes down by eights; below zero it is above all shifts, read without its sign, and that ends
the loop. -/
def wordBytes : (bytesLeft word : ℕ) → List ℕ
  | 0, _ => []
  | bytesLeft + 1, word => (word >>> (8 * bytesLeft)) % 256 :: wordBytes bytesLeft word

/-- `findStart`: of the bytes that are written, where the copy begins. -/
def findStart (outBytes : List ℕ) (zeroCount : ℕ) : ℕ :=
  match outBytes.findIdx? (· != 0) with
  | some start => start - zeroCount
  | none => 0

/-- What `decode` does with the words: the bytes are written, and copied from the zeros on that
the string asks for. -/
def copyBytes (str : JavaString) (bytesLeft : ℕ) (outArray : List ℕ) :
    Except Thrown (List Byte) :=
  let size := toInt32 (toInt32 (str.length + 3) * 3)
  let written := wordBytes bytesLeft (outArray.getD 0 0) ++ outArray.tail.flatMap (wordBytes 4)
  if size < 0 then .error .NegativeArraySizeException
  else if size < written.length then .error .ArrayIndexOutOfBoundsException
  else
    let outBytes := written ++ List.replicate (size.toNat - written.length) 0
    let zeroCount := (str.takeWhile (· == letter 0)).length
    let outBytesStart := findStart outBytes zeroCount
    if written.length < outBytesStart then .error (.IllegalArgumentException "from > to")
    else .ok (((outBytes.take written.length).drop outBytesStart).map toByte)

def decode (str : JavaString) : Except Thrown (List Byte) :=
  if str.isEmpty then .ok []
  else
    let rest := str.length % 4
    -- the mask of a word: its upper half is not looked at
    let zeroMask := if 0 < rest then (0xffffffff <<< (rest * 8)) &&& 0xffffffff else 0
    let bytesLeft := if 0 < rest then rest else 4
    let outArrayLength := (toInt32 (str.length + 3)).tdiv 4
    if outArrayLength < 0 then .error .NegativeArraySizeException
    else
      match str.foldlM (addChar zeroMask) (List.replicate outArrayLength.toNat 0) with
      | .error e => .error e
      | .ok outArray => copyBytes str bytesLeft outArray

/-! ## 2. Encoding one byte -/

theorem getD_lt {l : List ℕ} {bound : ℕ} (hl : ∀ d ∈ l, d < bound) {i : ℕ} (hi : i < l.length) :
    l.getD i 0 < bound := by
  rw [List.getD_eq_getElem _ _ hi]
  exact hl _ (List.getElem_mem hi)

theorem mem_set_lt {l : List ℕ} {bound d i e : ℕ} (hl : ∀ d ∈ l, d < bound) (he : e < bound)
    (hd : d ∈ l.set i e) : d < bound := by
  rcases List.mem_or_eq_of_mem_set hd with hd | rfl
  · exact hl d hd
  · exact he

theorem getD_set_ne {l : List ℕ} {i j e : ℕ} (h : i ≠ j) : (l.set i e).getD j 0 = l.getD j 0 := by
  rw [List.getD_eq_getElem?_getD, List.getD_eq_getElem?_getD, List.getElem?_set_ne h]

theorem getD_set_self {l : List ℕ} {i e : ℕ} (h : i < l.length) : (l.set i e).getD i 0 = e := by
  rw [List.getD_eq_getElem?_getD, List.getElem?_set_self h]
  rfl

/-- Unused places: those before `high`, as far as a place. -/
def Unused (buffer : List ℕ) (high n : ℕ) : Prop := ∀ i, i < high → i < n → buffer.getD i 0 = 0

/-- A byte is carried through the places before one, if the number fits them. -/
theorem encodeByte_spec {high n carry : ℕ} {buffer : List ℕ} (hn : n ≤ buffer.length)
    (hdigits : ∀ d ∈ buffer, d < 58) (hunused : Unused buffer high n) :
    (256 * Radix.value 58 (buffer.take n) + carry < 58 ^ n →
      ∃ high' buffer', encodeByte high n carry buffer = .ok (high', buffer') ∧
        buffer'.length = buffer.length ∧ (∀ d ∈ buffer', d < 58) ∧
        (∀ i < high', buffer'.getD i 0 = 0) ∧
        (∀ i, n ≤ i → buffer'.getD i 0 = buffer.getD i 0) ∧
        Radix.value 58 (buffer'.take n) = 256 * Radix.value 58 (buffer.take n) + carry) ∧
    (58 ^ n ≤ 256 * Radix.value 58 (buffer.take n) + carry →
      encodeByte high n carry buffer = .error .ArrayIndexOutOfBoundsException) := by
  induction n generalizing carry buffer with
  | zero =>
    rw [List.take_zero, Radix.value_nil, pow_zero]
    constructor
    · intro hfits
      have hcarry : ¬ carry ≠ 0 := by omega
      refine ⟨0, buffer, ?_, rfl, hdigits, by omega, fun _ _ => rfl, ?_⟩
      · rw [encodeByte, if_neg hcarry]
      · rw [List.take_zero, Radix.value_nil]
        omega
    · intro hbig
      have hcarry : carry ≠ 0 := by omega
      rw [encodeByte, if_pos hcarry]
  | succ n ih =>
    have hlt : n < buffer.length := hn
    have hdigit := getD_lt hdigits hlt
    have hvalue := Radix.value_take_succ 58 hlt
    by_cases hgo : n + 1 > high ∨ carry ≠ 0
    · -- the place is computed, and what is carried goes to those before it
      have hmod : (carry + 256 * buffer.getD n 0) % 58 < 58 := Nat.mod_lt _ (by omega)
      have hdiv := Nat.div_add_mod (carry + 256 * buffer.getD n 0) 58
      rw [encodeByte, if_pos hgo]
      generalize hsum : carry + 256 * buffer.getD n 0 = sum at *
      have hset : (buffer.set n (sum % 58)).take n = buffer.take n :=
        List.take_set_of_le (Nat.le_refl n)
      have hlen' : n ≤ (buffer.set n (sum % 58)).length := by
        rw [List.length_set]
        omega
      have hunused' : Unused (buffer.set n (sum % 58)) high n := by
        intro i hi hin
        rw [getD_set_ne (by omega)]
        exact hunused i hi (by omega)
      obtain ⟨hfit, hbig⟩ :=
        @ih (sum / 58) _ hlen' (fun d hd => mem_set_lt hdigits hmod hd) hunused'
      rw [hset] at hfit hbig
      rw [hvalue, Nat.pow_succ]
      constructor
      · intro h
        obtain ⟨high', buffer', hcode, hlen, hlt', hzero, hkeep, hval⟩ := hfit (by omega)
        refine ⟨high', buffer', hcode, ?_, hlt', hzero, ?_, ?_⟩
        · rw [hlen, List.length_set]
        · intro i hi
          rw [hkeep i (by omega), getD_set_ne (by omega)]
        · have hlast := hkeep n (Nat.le_refl n)
          rw [getD_set_self hlt] at hlast
          rw [Radix.value_take_succ 58 (by rw [hlen, List.length_set]; omega), hval, hlast]
          omega
      · intro h
        exact hbig (by omega)
    · -- nothing is carried, and the places before this one are not used
      have hzero : Radix.value 58 (buffer.take (n + 1)) = 0 :=
        Radix.value_take_eq_zero 58 hn fun i hi => hunused i (by omega) hi
      have hpos : 0 < 58 ^ (n + 1) := by positivity
      rw [encodeByte, if_neg hgo]
      constructor
      · intro _
        refine ⟨n + 1, buffer, rfl, rfl, hdigits, ?_, fun _ _ => rfl, by omega⟩
        intro i hi
        exact hunused i (by omega) hi
      · intro h
        omega

/-! ## 3. Encoding all bytes -/

/-- The bytes are added to the number of the buffer, if the buffer has room for it. -/
theorem encodeBytes_spec {bytes : List ℕ} {high : ℕ} {buffer : List ℕ}
    (hdigits : ∀ d ∈ buffer, d < 58) (hunused : ∀ i < high, buffer.getD i 0 = 0) :
    (Radix.value 58 buffer * 256 ^ bytes.length + Radix.value 256 bytes < 58 ^ buffer.length →
      ∃ buffer', encodeBytes buffer.length bytes high buffer = .ok buffer' ∧
        buffer'.length = buffer.length ∧ (∀ d ∈ buffer', d < 58) ∧
        Radix.value 58 buffer' =
          Radix.value 58 buffer * 256 ^ bytes.length + Radix.value 256 bytes) ∧
    (58 ^ buffer.length ≤
        Radix.value 58 buffer * 256 ^ bytes.length + Radix.value 256 bytes →
      encodeBytes buffer.length bytes high buffer = .error .ArrayIndexOutOfBoundsException) := by
  induction bytes generalizing high buffer with
  | nil =>
    have hlt := Radix.value_lt (by omega : 1 < 58) hdigits
    rw [List.length_nil, pow_zero, Nat.mul_one, Radix.value_nil, Nat.add_zero]
    exact ⟨fun _ => ⟨buffer, rfl, rfl, hdigits, rfl⟩, fun h => by omega⟩
  | cons byte bytes ih =>
    have htotal : Radix.value 58 buffer * 256 ^ (byte :: bytes).length +
        Radix.value 256 (byte :: bytes) =
          (256 * Radix.value 58 buffer + byte) * 256 ^ bytes.length + Radix.value 256 bytes := by
      rw [Radix.value_cons, List.length_cons]
      ring
    have hstep := @encodeByte_spec high buffer.length byte buffer (Nat.le_refl _) hdigits
      fun i hi _ => hunused i hi
    rw [List.take_length] at hstep
    have hpow : 0 < 256 ^ bytes.length := by positivity
    have hgrow := Nat.le_mul_of_pos_right (256 * Radix.value 58 buffer + byte) hpow
    rw [htotal]
    by_cases hfits : 256 * Radix.value 58 buffer + byte < 58 ^ buffer.length
    · obtain ⟨high', buffer', hcode, hlen, hdigits', hzero, -, hvalue⟩ := hstep.1 hfits
      rw [← hlen, List.take_length] at hvalue
      have hrest := @ih high' buffer' hdigits' hzero
      rw [hlen, hvalue] at hrest
      simp only [encodeBytes, hcode]
      exact hrest
    · have herror := hstep.2 (by omega)
      simp only [encodeBytes, herror]
      exact ⟨fun h => by omega, fun _ => trivial⟩

/-- A buffer of 138 digits for 100 bytes is large enough. -/
theorem pow_le_bufferSize (n : ℕ) : 256 ^ n < 58 ^ (n * 138 / 100 + 1) := by
  have hbase : 256 ^ 100 ≤ 58 ^ 138 := by
    norm_num
  have hpow : (256 ^ n) ^ 100 < (58 ^ (n * 138 / 100 + 1)) ^ 100 := by
    calc (256 ^ n) ^ 100 = (256 ^ 100) ^ n := by rw [← pow_mul, ← pow_mul, Nat.mul_comm]
      _ ≤ (58 ^ 138) ^ n := Nat.pow_le_pow_left hbase n
      _ = 58 ^ (n * 138) := by rw [← pow_mul, Nat.mul_comm]
      _ < 58 ^ ((n * 138 / 100 + 1) * 100) := Nat.pow_lt_pow_right (by omega) (by omega)
      _ = (58 ^ (n * 138 / 100 + 1)) ^ 100 := by rw [pow_mul]
  exact lt_of_pow_lt_pow_left₀ 100 (Nat.zero_le _) hpow

/-- The bytes after the zeros in front. -/
def significantBytes (bin : List Byte) : List ℕ := Radix.significant (bin.map toUnsigned)

section Encode

variable {bin : List Byte}

theorem length_eq_zeros (bin : List Byte) :
    bin.length = Radix.zeros (bin.map toUnsigned) + (significantBytes bin).length := by
  have hlen := Radix.length_eq (bin.map toUnsigned)
  rw [List.length_map] at hlen
  exact hlen

theorem drop_zeros_bytes (bin : List Byte) :
    (bin.map toUnsigned).drop (Radix.zeros (bin.map toUnsigned)) = significantBytes bin :=
  Radix.drop_zeros _

theorem significantBytes_lt (bin : List Byte) : ∀ d ∈ significantBytes bin, d < 256 := fun d hd =>
  StdBase58.map_toUnsigned_lt bin d (StdBase58.significant_mem hd)

/-- The number of the bytes, in a buffer of this size. -/
theorem encodeBytes_zeros (bin : List Byte) (size : ℕ) :
    (Radix.value 256 (significantBytes bin) < 58 ^ size →
      ∃ buffer, encodeBytes size (significantBytes bin) size (List.replicate size 0) =
          .ok buffer ∧ buffer.length = size ∧
        buffer.drop (Radix.zeros buffer) =
          Radix.digits 58 (Radix.value 256 (bin.map toUnsigned))) ∧
    (58 ^ size ≤ Radix.value 256 (significantBytes bin) →
      encodeBytes size (significantBytes bin) size (List.replicate size 0) =
        .error .ArrayIndexOutOfBoundsException) := by
  have hspec := @encodeBytes_spec (significantBytes bin) size (List.replicate size 0)
    (fun d hd => by rw [List.eq_of_mem_replicate hd]; omega)
    (fun i hi => by rw [List.getD_replicate _ hi])
  rw [List.length_replicate, Radix.value_replicate_zero, Nat.zero_mul, Nat.zero_add] at hspec
  refine ⟨fun hfits => ?_, hspec.2⟩
  obtain ⟨buffer, hcode, hlen, hdigits, hvalue⟩ := hspec.1 hfits
  refine ⟨buffer, hcode, hlen, ?_⟩
  rw [Radix.drop_zeros, Radix.significant_eq (by omega) hdigits, hvalue, significantBytes,
    Radix.value_significant]

/-- The size of the buffer fits the small word: the letters are returned. -/
theorem encode_eq (hsize : (significantBytes bin).length * 138 < 2 ^ 31)
    (hlen : bin.length < 2 ^ 30) :
    encode bin = .ok (StdBase58.encoded (bin.map toUnsigned)) := by
  by_cases hempty : bin = []
  · rw [hempty]
    rfl
  have hcount := length_eq_zeros bin
  obtain ⟨hroom, -⟩ := encodeBytes_zeros bin ((significantBytes bin).length * 138 / 100 + 1)
  have hlt := Radix.value_lt (by omega : 1 < 256) (significantBytes_lt bin)
  obtain ⟨buffer, hcode, hbuffer, hdrop⟩ := hroom (hlt.trans (pow_le_bufferSize _))
  have hbufferSize : (toInt32 ((bin.length - (Radix.zeros (bin.map toUnsigned) : ℕ)) * 138)).tdiv
      100 + 1 = (((significantBytes bin).length * 138 / 100 + 1 : ℕ) : ℤ) := by
    rw [toInt32_of_range (by omega) (by omega), Int.tdiv_eq_ediv_of_nonneg (by omega)]
    omega
  have hzeros := Radix.length_eq buffer
  have houtput : ¬ toInt32 ((((significantBytes bin).length * 138 / 100 + 1 : ℕ) : ℤ) -
      Radix.zeros buffer + (Radix.zeros (bin.map toUnsigned) : ℕ)) < 0 := by
    rw [toInt32_of_range (by omega) (by omega)]
    omega
  have hnonempty : ¬ bin.isEmpty = true := by
    rw [List.isEmpty_iff]
    exact hempty
  unfold encode
  simp only [StdBase58.takeWhile_zero_length]
  rw [if_neg hnonempty, hbufferSize, if_neg (by omega), Int.toNat_natCast, drop_zeros_bytes, hcode]
  show (if toInt32 _ < 0 then _ else _) = _
  rw [if_neg houtput, hdrop]
  rfl

/-- Otherwise the buffer is too small, or its size is negative. -/
theorem encode_of_le (hsize : 2 ^ 31 ≤ (significantBytes bin).length * 138)
    (harray : bin.length < 2 ^ 31) : ∃ e, encode bin = .error e := by
  have hcount := length_eq_zeros bin
  have hnonempty : ¬ bin.isEmpty = true := by
    rw [List.isEmpty_iff]
    rintro rfl
    simp at hcount
    omega
  have hproduct : ((bin.length : ℤ) - (Radix.zeros (bin.map toUnsigned) : ℕ)) * 138 =
      (((significantBytes bin).length * 138 : ℕ) : ℤ) := by omega
  unfold encode
  simp only [StdBase58.takeWhile_zero_length]
  rw [if_neg hnonempty, hproduct]
  generalize hsum : toInt32 (((significantBytes bin).length * 138 : ℕ) : ℤ) = product
  -- in both cases the buffer has fewer places than there are bytes
  have hshort : (product.tdiv 100 + 1).toNat + 1 ≤ (significantBytes bin).length := by
    have hhi := toInt32_le (((significantBytes bin).length * 138 : ℕ) : ℤ)
    rw [hsum] at hhi
    by_cases hwrap : (significantBytes bin).length * 138 < 4294967296
    · rw [toInt32_of_wrap (by omega) (by omega)] at hsum
      have hdiv := Int.tdiv_le_tdiv (show (0 : ℤ) < 100 by omega) (show product ≤ 0 by omega)
      rw [Int.zero_tdiv] at hdiv
      omega
    · have hdiv := Int.tdiv_le_tdiv (show (0 : ℤ) < 100 by omega) hhi
      have hmost : Int.tdiv 2147483647 100 = 21474836 := by decide
      rw [hmost] at hdiv
      omega
  obtain ⟨-, hfull⟩ := encodeBytes_zeros bin (product.tdiv 100 + 1).toNat
  have hbig : 58 ^ (product.tdiv 100 + 1).toNat ≤ Radix.value 256 (significantBytes bin) := by
    rcases Radix.significant_eq_nil_or (bin.map toUnsigned) with hnil | ⟨d, rest, hd, hcons⟩
    · unfold significantBytes at hshort
      rw [hnil] at hshort
      simp at hshort
    · have hhead : 256 ^ rest.length ≤ Radix.value 256 (d :: rest) := Radix.pow_le_value hd
      have hlen : (significantBytes bin).length = rest.length + 1 := by
        rw [significantBytes, hcons, List.length_cons]
      calc 58 ^ (product.tdiv 100 + 1).toNat ≤ 58 ^ rest.length :=
            Nat.pow_le_pow_right (by omega) (by omega)
        _ ≤ 256 ^ rest.length := Nat.pow_le_pow_left (by omega) _
        _ ≤ _ := by
            rw [significantBytes, hcons]
            exact hhead
  by_cases hneg : product.tdiv 100 + 1 < 0
  · rw [if_pos hneg]
    exact ⟨_, rfl⟩
  · rw [if_neg hneg, drop_zeros_bytes, hfull hbig]
    exact ⟨_, rfl⟩

end Encode

/-! ## 4. Decoding one digit -/

/-- A digit is carried through the words before a place, the first word not counted. -/
theorem addDigit_spec {n mask x : ℕ} {words : List ℕ} (hn : n ≤ words.length) (hmask : mask < 64)
    (hwords : ∀ d ∈ words, d < 2 ^ 32) :
    ∃ words' carry, addDigit n mask (x :: words) = (x :: words', carry) ∧
      words'.length = words.length ∧ (∀ d ∈ words', d < 2 ^ 32) ∧
      (∀ i, n ≤ i → words'.getD i 0 = words.getD i 0) ∧
      Radix.value (2 ^ 32) (words.take n) * 58 + mask =
        carry * (2 ^ 32) ^ n + Radix.value (2 ^ 32) (words'.take n) := by
  induction n generalizing mask words with
  | zero =>
    refine ⟨words, mask, rfl, rfl, hwords, fun _ _ => rfl, ?_⟩
    rw [List.take_zero, Radix.value_nil]
    omega
  | succ n ih =>
    have hlt : n < words.length := hn
    have hword := getD_lt hwords hlt
    rw [addDigit, List.getD_cons_succ, List.set_cons_succ]
    generalize hlong : words.getD n 0 * 58 + mask = longValue
    have hlow : longValue &&& 0xffffffff = longValue % 2 ^ 32 :=
      Nat.and_two_pow_sub_one_eq_mod longValue 32
    -- the carry is below 59, and the mask of six bits keeps it
    have hhigh : (longValue >>> 32) &&& 0x3f = longValue / 2 ^ 32 := by
      rw [Nat.shiftRight_eq_div_pow, Nat.and_two_pow_sub_one_eq_mod _ 6]
      omega
    have hmod : longValue % 2 ^ 32 < 2 ^ 32 := Nat.mod_lt _ (by omega)
    have hlen : n ≤ (words.set n (longValue % 2 ^ 32)).length := by
      rw [List.length_set]
      omega
    have hset : (words.set n (longValue % 2 ^ 32)).take n = words.take n :=
      List.take_set_of_le (Nat.le_refl n)
    rw [hlow, hhigh]
    obtain ⟨words', carry, hcode, hlen', hlt', hkeep, hvalue⟩ :=
      @ih (longValue / 2 ^ 32) _ hlen (by omega) fun d hd => mem_set_lt hwords hmod hd
    rw [hset] at hvalue
    rw [List.length_set] at hlen'
    refine ⟨words', carry, hcode, hlen', hlt', ?_, ?_⟩
    · intro i hi
      rw [hkeep i (by omega), getD_set_ne (by omega)]
    · have hlast := hkeep n (Nat.le_refl n)
      rw [getD_set_self hlt] at hlast
      have hsplit := Nat.div_add_mod longValue (2 ^ 32)
      rw [Radix.value_take_succ _ hlt, Radix.value_take_succ _ (by omega), hlast]
      calc (Radix.value (2 ^ 32) (words.take n) * 2 ^ 32 + words.getD n 0) * 58 + mask
          = Radix.value (2 ^ 32) (words.take n) * 58 * 2 ^ 32 + longValue := by
            rw [← hlong]
            ring
        _ = (Radix.value (2 ^ 32) (words.take n) * 58 + longValue / 2 ^ 32) * 2 ^ 32 +
              longValue % 2 ^ 32 := by
            nth_rewrite 1 [← hsplit]
            ring
        _ = _ := by
            rw [hvalue]
            ring

/-- A character is refused if it has no digit, or if the number does not fit the words. -/
theorem addChar_spec (zeroMask : ℕ) {words : List ℕ} {c : UInt16}
    (hwords : ∀ d ∈ words, d < 2 ^ 32) :
    (StdBase58.toBase58 c ≠ -1 →
      Radix.value (2 ^ 32) words * 58 + toUnsigned (StdBase58.toBase58 c) <
        (2 ^ 32) ^ words.length →
      ∃ words', addChar zeroMask (0 :: words) c = .ok (0 :: words') ∧
        words'.length = words.length ∧ (∀ d ∈ words', d < 2 ^ 32) ∧
        Radix.value (2 ^ 32) words' =
          Radix.value (2 ^ 32) words * 58 + toUnsigned (StdBase58.toBase58 c)) ∧
    (StdBase58.toBase58 c = -1 ∨ (2 ^ 32) ^ words.length ≤
        Radix.value (2 ^ 32) words * 58 + toUnsigned (StdBase58.toBase58 c) →
      ∃ e, addChar zeroMask (0 :: words) c = .error e) := by
  have hrefused : (DecodeTable.length ≤ c.toNat ∨ DecodeTable.getD c.toNat (-1) = -1) ↔
      StdBase58.toBase58 c = -1 := by
    unfold StdBase58.toBase58
    by_cases hc : c.toNat < DecodeTable.length
    · rw [if_pos hc]
      exact or_iff_right (by omega)
    · rw [if_neg hc]
      exact iff_of_true (.inl (by omega)) rfl
  unfold addChar
  by_cases hbad : StdBase58.toBase58 c = -1
  · rw [if_pos (hrefused.mpr hbad)]
    exact ⟨fun h => absurd hbad h, fun _ => ⟨_, rfl⟩⟩
  rw [if_neg (mt hrefused.mp hbad)]
  have hdigit := (StdBase58.toUnsigned_toBase58 hbad).1
  have hlookup : DecodeTable.getD c.toNat (-1) = StdBase58.toBase58 c := by
    unfold StdBase58.toBase58
    rw [if_pos]
    by_contra hc
    exact hbad (if_neg hc)
  obtain ⟨words', carry, hcode, hlen, hlt, -, hvalue⟩ :=
    @addDigit_spec words.length (toUnsigned (StdBase58.toBase58 c)) 0 words (Nat.le_refl _)
      (by omega) hwords
  rw [List.take_length, ← hlen, List.take_length, hlen] at hvalue
  have hrest := Radix.value_lt (by omega : 1 < 2 ^ 32) hlt
  rw [hlen] at hrest
  rw [hlookup, hvalue]
  simp only [List.length_cons, Nat.add_sub_cancel, hcode]
  by_cases hcarry : carry = 0
  · subst hcarry
    rw [Nat.zero_mul, Nat.zero_add]
    refine ⟨fun _ _ => ⟨words', ?_, hlen, hlt, rfl⟩, fun h => ?_⟩
    · rw [if_neg (Nat.lt_irrefl 0), List.getD_cons_zero, Nat.zero_and]
      rfl
    · rcases h with h | h
      · exact absurd h hbad
      · omega
  · have hle := Nat.le_mul_of_pos_left ((2 ^ 32) ^ words.length) (Nat.pos_of_ne_zero hcarry)
    refine ⟨fun _ h => by omega, fun _ => ?_⟩
    rw [if_pos (Nat.pos_of_ne_zero hcarry)]
    exact ⟨_, rfl⟩

/-! ## 5. Decoding all characters -/

/-- The number of the characters is in the words, if they all have digits and it fits. -/
theorem addChars_spec (zeroMask : ℕ) {str : JavaString} {words : List ℕ}
    (hwords : ∀ d ∈ words, d < 2 ^ 32) :
    (StdBase58.Valid str →
      Radix.value (2 ^ 32) words * 58 ^ str.length + Radix.value 58 (StdBase58.digitsOf str) <
        (2 ^ 32) ^ words.length →
      ∃ words', str.foldlM (addChar zeroMask) (0 :: words) = .ok (0 :: words') ∧
        words'.length = words.length ∧ (∀ d ∈ words', d < 2 ^ 32) ∧
        Radix.value (2 ^ 32) words' = Radix.value (2 ^ 32) words * 58 ^ str.length +
          Radix.value 58 (StdBase58.digitsOf str)) ∧
    (¬ StdBase58.Valid str ∨ (2 ^ 32) ^ words.length ≤
        Radix.value (2 ^ 32) words * 58 ^ str.length + Radix.value 58 (StdBase58.digitsOf str) →
      ∃ e, str.foldlM (addChar zeroMask) (0 :: words) = .error e) := by
  induction str generalizing words with
  | nil =>
    have hlt := Radix.value_lt (by omega : 1 < 2 ^ 32) hwords
    have hnil : Radix.value 58 (StdBase58.digitsOf []) = 0 := rfl
    have hvalid : StdBase58.Valid [] := fun c hc => absurd hc List.not_mem_nil
    rw [List.length_nil, pow_zero, Nat.mul_one, hnil, Nat.add_zero]
    refine ⟨fun _ _ => ⟨words, rfl, rfl, hwords, rfl⟩, fun h => ?_⟩
    rcases h with h | h
    · exact absurd hvalid h
    · omega
  | cons c str ih =>
    have hcons : StdBase58.Valid (c :: str) ↔
        StdBase58.toBase58 c ≠ -1 ∧ StdBase58.Valid str := List.forall_mem_cons
    have htotal : Radix.value (2 ^ 32) words * 58 ^ (c :: str).length +
        Radix.value 58 (StdBase58.digitsOf (c :: str)) =
          (Radix.value (2 ^ 32) words * 58 + toUnsigned (StdBase58.toBase58 c)) *
            58 ^ str.length + Radix.value 58 (StdBase58.digitsOf str) := by
      have hlen : (StdBase58.digitsOf str).length = str.length := List.length_map ..
      rw [StdBase58.digitsOf, List.map_cons, Radix.value_cons, ← StdBase58.digitsOf, hlen,
        List.length_cons]
      ring
    have hpow : 0 < 58 ^ str.length := by positivity
    have hgrow := Nat.le_mul_of_pos_right
      (Radix.value (2 ^ 32) words * 58 + toUnsigned (StdBase58.toBase58 c)) hpow
    obtain ⟨hfits, hrefused⟩ := @addChar_spec zeroMask words c hwords
    rw [htotal, hcons, List.foldlM_cons]
    by_cases hstep : StdBase58.toBase58 c ≠ -1 ∧
        Radix.value (2 ^ 32) words * 58 + toUnsigned (StdBase58.toBase58 c) <
          (2 ^ 32) ^ words.length
    · obtain ⟨words', hcode, hlen, hlt, hvalue⟩ := hfits hstep.1 hstep.2
      have hrest := @ih words' hlt
      rw [hvalue, hlen] at hrest
      rw [hcode]
      refine ⟨fun h hle => hrest.1 h.2 hle, fun h => hrest.2 (h.imp_left fun hnot hall => ?_)⟩
      exact hnot ⟨hstep.1, hall⟩
    · have hbad : StdBase58.toBase58 c = -1 ∨ (2 ^ 32) ^ words.length ≤
          Radix.value (2 ^ 32) words * 58 + toUnsigned (StdBase58.toBase58 c) := by
        by_cases hc : StdBase58.toBase58 c = -1
        · exact .inl hc
        · exact .inr (Nat.le_of_not_lt fun hlt => hstep ⟨hc, hlt⟩)
      obtain ⟨e, he⟩ := hrefused hbad
      rw [he]
      refine ⟨fun h hle => ?_, fun _ => ⟨e, rfl⟩⟩
      exact absurd ⟨h.1, by omega⟩ hstep

/-! ## 6. The bytes of the words -/

theorem wordBytes_spec (k word : ℕ) :
    (wordBytes k word).length = k ∧ (∀ d ∈ wordBytes k word, d < 256) ∧
      Radix.value 256 (wordBytes k word) = word % 256 ^ k := by
  induction k with
  | zero =>
    refine ⟨rfl, by simp [wordBytes], ?_⟩
    rw [pow_zero, Nat.mod_one]
    rfl
  | succ k ih =>
    obtain ⟨hlen, hlt, hvalue⟩ := ih
    rw [wordBytes]
    refine ⟨by rw [List.length_cons, hlen], ?_, ?_⟩
    · intro d hd
      rcases List.mem_cons.mp hd with rfl | hd
      · exact Nat.mod_lt _ (by omega)
      · exact hlt d hd
    · have hpow : 2 ^ (8 * k) = 256 ^ k := by
        rw [pow_mul]
        norm_num
      rw [Radix.value_cons, hlen, hvalue, Nat.shiftRight_eq_div_pow, hpow, Nat.pow_succ,
        Nat.mod_mul]
      ring

theorem flatMap_wordBytes {words : List ℕ} (hwords : ∀ d ∈ words, d < 2 ^ 32) :
    (words.flatMap (wordBytes 4)).length = 4 * words.length ∧
      (∀ d ∈ words.flatMap (wordBytes 4), d < 256) ∧
      Radix.value 256 (words.flatMap (wordBytes 4)) = Radix.value (2 ^ 32) words := by
  induction words with
  | nil => exact ⟨rfl, by simp, rfl⟩
  | cons word words ih =>
    obtain ⟨hlen, hlt, hvalue⟩ := ih fun d hd => hwords d (List.mem_cons_of_mem word hd)
    obtain ⟨hlen4, hlt4, hvalue4⟩ := wordBytes_spec 4 word
    have hword := hwords word List.mem_cons_self
    rw [List.flatMap_cons]
    refine ⟨?_, ?_, ?_⟩
    · rw [List.length_append, hlen4, hlen, List.length_cons]
      ring
    · intro d hd
      rcases List.mem_append.mp hd with hd | hd
      · exact hlt4 d hd
      · exact hlt d hd
    · have hpow : (256 : ℕ) ^ 4 = 2 ^ 32 := by
        norm_num
      rw [Radix.value_append, hlen, hvalue, hvalue4, Nat.mod_eq_of_lt (by omega), Radix.value_cons,
        pow_mul, hpow]

/-- The first byte that is not zero, with zeros after the bytes. -/
theorem findIdx?_append_zeros (l : List ℕ) (m : ℕ) :
    (l ++ List.replicate m 0).findIdx? (· != 0) =
      if Radix.significant l = [] then none else some (Radix.zeros l) := by
  induction l with
  | nil =>
    rw [List.nil_append, List.findIdx?_replicate]
    simp [Radix.significant]
  | cons d l ih =>
    rw [List.cons_append, List.findIdx?_cons, ih]
    by_cases hd : d = 0
    · rw [hd, Radix.significant_cons_zero, Radix.zeros_cons_zero]
      by_cases hl : Radix.significant l = []
      · rw [if_pos hl, if_pos hl]
        rfl
      · rw [if_neg hl, if_neg hl]
        rfl
    · rw [Radix.significant_cons_of_ne hd, Radix.zeros_cons_of_ne hd, if_neg (List.cons_ne_nil _ _)]
      simp [hd]

/-! ## 7. What is decoded -/

section Decode

variable {str : JavaString}

/-- The number of a string fits the words after the first one. -/
def Fits (str : JavaString) : Prop :=
  Radix.value 58 (StdBase58.digitsOf str) < (2 ^ 32) ^ ((str.length + 3) / 4 - 1)

/-- The bytes of the number, after the zeros that the string begins with. -/
theorem drop_zeros_written (hvalid : StdBase58.Valid str) {written : List ℕ}
    (hlen : written.length = str.length) (hlt : ∀ d ∈ written, d < 256)
    (hvalue : Radix.value 256 written = Radix.value 58 (StdBase58.digitsOf str)) (m : ℕ) :
    ∃ start, findStart (written ++ List.replicate m 0)
        (Radix.zeros (StdBase58.digitsOf str)) = start ∧ start ≤ written.length ∧
      (written.drop start).map toByte = StdBase58.decoded (StdBase58.digitsOf str) := by
  have hinput := StdBase58.digitsOf_lt hvalid
  have hinputLen : (StdBase58.digitsOf str).length = str.length := List.length_map ..
  generalize StdBase58.digitsOf str = input at hinput hinputLen hvalue ⊢
  have hwritten := Radix.length_eq written
  have hcount := Radix.length_eq input
  have hsig := Radix.significant_eq (by omega : 1 < 256) hlt
  rw [hvalue] at hsig
  have hinputSig := Radix.significant_eq (by omega : 1 < 58) hinput
  unfold findStart
  rw [findIdx?_append_zeros]
  by_cases hnone : Radix.significant written = []
  · -- the number is zero, and all characters are zeros
    rw [if_pos hnone]
    have hzero : Radix.value 58 input = 0 := by
      rw [← hvalue, ← Radix.value_significant, hnone]
      rfl
    have hinputNil : Radix.significant input = [] := by
      rw [hinputSig, hzero]
      rfl
    rw [hnone, List.length_nil] at hwritten
    rw [hinputNil, List.length_nil] at hcount
    refine ⟨0, rfl, Nat.zero_le _, ?_⟩
    have hall := Radix.replicate_append_significant written
    rw [hsig] at hall
    rw [List.drop_zero, StdBase58.decoded, ← hall]
    rw [show Radix.zeros input = Radix.zeros written by omega]
  · rw [if_neg hnone]
    -- a number has no more bytes than digits
    have hfewer : (Radix.significant written).length ≤ (Radix.significant input).length := by
      rw [hsig, Radix.length_digits_le_iff (by omega)]
      have hsmall := Radix.value_lt (by omega : 1 < 58) fun d hd =>
        hinput d (StdBase58.significant_mem hd)
      rw [Radix.value_significant] at hsmall
      exact hsmall.trans_le (Nat.pow_le_pow_left (by omega) _)
    refine ⟨Radix.zeros written - Radix.zeros input, rfl, by omega, ?_⟩
    have hsplit : written = List.replicate (Radix.zeros written - Radix.zeros input) 0 ++
        (List.replicate (Radix.zeros input) 0 ++ Radix.significant written) := by
      rw [← List.append_assoc, List.replicate_append_replicate]
      rw [show Radix.zeros written - Radix.zeros input + Radix.zeros input =
        Radix.zeros written by omega]
      exact (Radix.replicate_append_significant written).symm
    rw [StdBase58.decoded, ← hsig]
    nth_rewrite 2 [hsplit]
    rw [List.drop_left' (List.length_replicate ..)]

theorem copyBytes_eq (hvalid : StdBase58.Valid str) {bytesLeft : ℕ} {words : List ℕ}
    (hlen : bytesLeft + 4 * words.length = str.length) (hwords : ∀ d ∈ words, d < 2 ^ 32)
    (hvalue : Radix.value (2 ^ 32) words = Radix.value 58 (StdBase58.digitsOf str)) :
    copyBytes str bytesLeft (0 :: words) =
      if toInt32 (toInt32 (str.length + 3) * 3) < 0 then .error .NegativeArraySizeException
      else if toInt32 (toInt32 (str.length + 3) * 3) < str.length then
        .error .ArrayIndexOutOfBoundsException
      else .ok (StdBase58.decoded (StdBase58.digitsOf str)) := by
  obtain ⟨hfirst, hfirstLt, hfirstValue⟩ := wordBytes_spec bytesLeft 0
  obtain ⟨hother, hotherLt, hotherValue⟩ := flatMap_wordBytes hwords
  unfold copyBytes
  rw [List.getD_cons_zero, List.tail_cons, StdBase58.takeWhile_one_length hvalid]
  generalize hwritten : wordBytes bytesLeft 0 ++ words.flatMap (wordBytes 4) = written
  generalize toInt32 (toInt32 (str.length + 3) * 3) = size
  have hwrittenLen : written.length = str.length := by
    rw [← hwritten, List.length_append, hfirst, hother, hlen]
  have hwrittenLt : ∀ d ∈ written, d < 256 := by
    intro d hd
    rw [← hwritten] at hd
    rcases List.mem_append.mp hd with hd | hd
    · exact hfirstLt d hd
    · exact hotherLt d hd
  have hwrittenValue :
      Radix.value 256 written = Radix.value 58 (StdBase58.digitsOf str) := by
    rw [← hwritten, Radix.value_append, hfirstValue, hotherValue, Nat.zero_mod, Nat.zero_mul,
      Nat.zero_add, hvalue]
  obtain ⟨start, hstart, hle, hbytes⟩ :=
    drop_zeros_written hvalid hwrittenLen hwrittenLt hwrittenValue (size.toNat - written.length)
  simp only [hstart, List.take_left]
  rw [if_neg (show ¬ written.length < start by omega), hbytes, hwrittenLen]

/-- The loop begins with zeros, in as many words as hold the characters. -/
theorem decode_loop (hne : str ≠ []) (hlen : str.length + 3 < 2 ^ 31) :
    ∃ zeroMask bytesLeft, bytesLeft + 4 * ((str.length + 3) / 4 - 1) = str.length ∧
      ∀ r, str.foldlM (addChar zeroMask) (0 :: List.replicate ((str.length + 3) / 4 - 1) 0) = r →
        decode str = match r with
          | .error e => .error e
          | .ok outArray => copyBytes str bytesLeft outArray := by
  have hpos := List.length_pos_iff.mpr hne
  have hnonempty : ¬ str.isEmpty = true := by
    rw [List.isEmpty_iff]
    exact hne
  have hcount : (toInt32 (str.length + 3)).tdiv 4 = (((str.length + 3) / 4 : ℕ) : ℤ) := by
    rw [toInt32_of_range (by omega) (by omega), Int.tdiv_eq_ediv_of_nonneg (by omega)]
    omega
  have hwords : List.replicate ((str.length + 3) / 4) 0 =
      0 :: List.replicate ((str.length + 3) / 4 - 1) 0 := by
    rw [← List.replicate_succ]
    rw [show (str.length + 3) / 4 - 1 + 1 = (str.length + 3) / 4 by omega]
  refine ⟨if 0 < str.length % 4 then (0xffffffff <<< (str.length % 4 * 8)) &&& 0xffffffff else 0,
    if 0 < str.length % 4 then str.length % 4 else 4, ?_, fun r hr => ?_⟩
  · by_cases hrest : 0 < str.length % 4
    · rw [if_pos hrest]
      omega
    · rw [if_neg hrest]
      omega
  · unfold decode
    simp only [hcount]
    rw [if_neg hnonempty, if_neg (by omega), Int.toNat_natCast, hwords, hr]

/-- The string is decoded if all characters have digits, the number fits the words after the
first, and the array for the bytes is large enough. -/
theorem decode_eq (hne : str ≠ []) (hlen : str.length + 3 < 2 ^ 31)
    (hvalid : StdBase58.Valid str) (hfits : Fits str) :
    decode str =
      if toInt32 (toInt32 (str.length + 3) * 3) < 0 then .error .NegativeArraySizeException
      else if toInt32 (toInt32 (str.length + 3) * 3) < str.length then
        .error .ArrayIndexOutOfBoundsException
      else .ok (StdBase58.decoded (StdBase58.digitsOf str)) := by
  obtain ⟨zeroMask, bytesLeft, hbytes, hdecode⟩ := decode_loop hne hlen
  obtain ⟨hroom, -⟩ := @addChars_spec zeroMask str
    (List.replicate ((str.length + 3) / 4 - 1) 0)
    fun d hd => by rw [List.eq_of_mem_replicate hd]; omega
  rw [List.length_replicate, Radix.value_replicate_zero, Nat.zero_mul, Nat.zero_add] at hroom
  obtain ⟨words, hcode, hcount, hwords, hvalue⟩ := hroom hvalid hfits
  rw [hdecode _ hcode]
  exact copyBytes_eq hvalid (by rw [hcount]; exact hbytes) hwords hvalue

/-- Of the longest strings the number of words is negative. -/
theorem decode_of_long (hlong : 2 ^ 31 ≤ str.length + 3) (hlen : str.length < 2 ^ 31) :
    ∃ e, decode str = .error e := by
  have hnonempty : ¬ str.isEmpty = true := by
    rw [List.isEmpty_iff]
    rintro rfl
    rw [List.length_nil] at hlong
    omega
  have hneg : (toInt32 (str.length + 3)).tdiv 4 < 0 := by
    rw [toInt32_of_wrap (by omega) (by omega)]
    have hdiv := Int.tdiv_le_tdiv (show (0 : ℤ) < 4 by omega)
      (show (str.length : ℤ) + 3 - 4294967296 ≤ -4 by omega)
    rw [show (-4 : ℤ).tdiv 4 = -1 by decide] at hdiv
    omega
  unfold decode
  generalize (toInt32 (str.length + 3)).tdiv 4 = count at hneg ⊢
  simp only [if_neg hnonempty]
  rw [if_pos hneg]
  exact ⟨_, rfl⟩

theorem decode_error (hne : str ≠ []) (hlen : str.length < 2 ^ 31)
    (hrefused : ¬ (StdBase58.Valid str ∧ Fits str)) : ∃ e, decode str = .error e := by
  by_cases hlong : 2 ^ 31 ≤ str.length + 3
  · exact decode_of_long hlong hlen
  obtain ⟨zeroMask, bytesLeft, hbytes, hdecode⟩ := decode_loop hne (by omega)
  obtain ⟨-, hfull⟩ := @addChars_spec zeroMask str
    (List.replicate ((str.length + 3) / 4 - 1) 0)
    fun d hd => by rw [List.eq_of_mem_replicate hd]; omega
  rw [List.length_replicate, Radix.value_replicate_zero, Nat.zero_mul, Nat.zero_add] at hfull
  have hcase : ¬ StdBase58.Valid str ∨
      (2 ^ 32) ^ ((str.length + 3) / 4 - 1) ≤ Radix.value 58 (StdBase58.digitsOf str) := by
    by_cases hvalid : StdBase58.Valid str
    · exact .inr (Nat.le_of_not_lt fun hlt => hrefused ⟨hvalid, hlt⟩)
    · exact .inl hvalid
  obtain ⟨e, he⟩ := hfull hcase
  exact ⟨e, hdecode _ he⟩

/-- A string that is decoded is decoded right. -/
theorem decoded_of_decode (hlen : str.length < 2 ^ 31) {bytes : List Byte}
    (h : decode str = .ok bytes) :
    StdBase58.Valid str ∧ bytes = StdBase58.decoded (StdBase58.digitsOf str) := by
  by_cases hne : str = []
  · subst hne
    refine ⟨fun c hc => absurd hc List.not_mem_nil, ?_⟩
    exact (Except.ok.inj h).symm
  by_cases hlong : 2 ^ 31 ≤ str.length + 3
  · obtain ⟨e, he⟩ := decode_of_long hlong hlen
    rw [he] at h
    cases h
  by_cases hall : StdBase58.Valid str ∧ Fits str
  · refine ⟨hall.1, ?_⟩
    rw [decode_eq hne (by omega) hall.1 hall.2] at h
    generalize toInt32 (toInt32 (str.length + 3) * 3) = size at h
    by_cases hneg : size < 0
    · rw [if_pos hneg] at h
      cases h
    · rw [if_neg hneg] at h
      by_cases hshort : size < str.length
      · rw [if_pos hshort] at h
        cases h
      · rw [if_neg hshort] at h
        exact (Except.ok.inj h).symm
  · obtain ⟨e, he⟩ := decode_error hne hlen hall
    rw [he] at h
    cases h

end Decode

end FastBase58

end WavesNode
