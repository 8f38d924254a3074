/-
The bytes of a data entry.

An entry is its key after a length, a type and a value. It is read in three ways: from a
buffer, from a place of an array, and from the database, where only the type and the value
are stored. A string entry keeps the bytes that it was read from, and is written as they are;
where they start is found by stepping back from the value, over the key as it would be
written again.

`parse_eq_ok` says when the two parsers agree, `roundTrips_iff` which entries are read back
wherever they are written, and `toBytes_stored_iff` which entries are written the same after
they were stored and loaded.
-/
import WavesNode.PBEncoding
import WavesNode.Utf8

set_option autoImplicit false

namespace WavesNode

open ByteBuffer

/-! ## 1. Reading from a place of an array -/

/-- `Deser.parseArrayWithLength` of an array. -/
def Deser.parseArrayWithLengthAt (bytes : ByteStr) (position : ℕ) :
    Except String (ByteStr × ℕ) :=
  let from_ := position + 2
  if bytes.length < from_ then .error "array too small"
  else
    let length := shortAt bytes position
    let to_ := from_ + length.toNat
    if length < 0 then .error "requirement failed: Array length should be non-negative"
    else if bytes.length < to_ then
      .error "requirement failed: Array length less than slice end point index"
    else .ok (slice bytes from_ length.toNat, to_)

namespace DataEntry

/-- `parseValue(key, bytes, p)`. -/
def parseValueAt (key : String) (bytes : ByteStr) (p : ℕ) : Except String (DataEntry × ℕ) :=
  if bytes.length ≤ p then .error "ArrayIndexOutOfBoundsException"
  else if byteAt bytes p = 0 then
    if bytes.length < p + 1 + 8 then .error "array too small"
    else .ok (⟨key, .Integer (longAt bytes (p + 1)), none⟩, p + 9)
  else if byteAt bytes p = 1 then
    if bytes.length ≤ p + 1 then .error "ArrayIndexOutOfBoundsException"
    else .ok (⟨key, .Boolean (byteAt bytes (p + 1) ≠ 0), none⟩, p + 2)
  else if byteAt bytes p = 2 then
    (Deser.parseArrayWithLengthAt bytes (p + 1)).map fun (blob, p1) =>
      (⟨key, .Binary blob, none⟩, p1)
  else if byteAt bytes p = 3 then
    (Deser.parseArrayWithLengthAt bytes (p + 1)).map fun (blob, p1) =>
      -- a slice from before the array starts with the array
      let start := p - 2 - (utf8Bytes key).length
      (⟨key, .String (decodeUtf8 blob), some (slice bytes start (p1 - start))⟩, p1)
  else .error s!"Unknown type {byteAt bytes p}"

/-- `parse(bytes, p)`. -/
def parseAt (bytes : ByteStr) (p : ℕ) : Except String (DataEntry × ℕ) :=
  if bytes.length < p + 2 then .error "array too small"
  else
    let keyLength := shortAt bytes p
    if keyLength < 0 ∨ bytes.length < p + 2 + keyLength.toNat then
      .error "StringIndexOutOfBoundsException"
    else
      parseValueAt (decodeUtf8 (slice bytes (p + 2) keyLength.toNat)) bytes
        (p + 2 + keyLength.toNat)

/-- `Keys.data`: what is stored of an entry, and what is read under its key. -/
def stored (e : DataEntry) : Except String DataEntry :=
  (parseValueAt e.key e.valueBytes 0).map Prod.fst

/-! ## 2. The two parsers -/

def isString : DataEntryValue → Bool
  | .String _ => true
  | _ => false

theorem parseArrayWithLengthAt_eq_ok {b : ByteStr} {p : ℕ} {r : ByteStr × ℕ} :
    Deser.parseArrayWithLengthAt b p = .ok r ↔
      (p + 2 ≤ b.length ∧ 0 ≤ shortAt b p ∧ p + 2 + (shortAt b p).toNat ≤ b.length) ∧
        r = (slice b (p + 2) (shortAt b p).toNat, p + 2 + (shortAt b p).toNat) := by
  unfold Deser.parseArrayWithLengthAt
  dsimp only
  by_cases h2 : b.length < p + 2
  · rw [if_pos h2]
    simp [h2]
  · rw [if_neg h2]
    by_cases hlength : shortAt b p < 0
    · rw [if_pos hlength]
      simp [hlength]
    · rw [if_neg hlength]
      by_cases hend : b.length < p + 2 + (shortAt b p).toNat
      · rw [if_pos hend]
        simp [hend]
      · rw [if_neg hend, Except.ok.injEq, eq_comm]
        exact (and_iff_right ⟨not_lt.mp h2, not_lt.mp hlength, not_lt.mp hend⟩).symm

theorem parseArrayWithLength_eq_ok {b : ByteStr} {p : ℕ} {r : ByteStr × ByteBuffer} :
    Deser.parseArrayWithLength ⟨b, p⟩ = .ok r ↔
      ∃ q, r.2 = ⟨b, q⟩ ∧ Deser.parseArrayWithLengthAt b p = .ok (r.1, q) := by
  unfold Deser.parseArrayWithLength
  simp only [bind_eq_ok, getShort_eq_ok, require_eq_ok, getByteArray_eq_ok, getArray_eq_ok,
    parseArrayWithLengthAt_eq_ok, decide_eq_true_eq]
  constructor
  · rintro ⟨_, _, ⟨h2, h⟩, _, _, ⟨hlength, h'⟩, -, hend, rfl⟩
    cases h
    cases h'
    exact ⟨_, rfl, ⟨h2, hlength, hend⟩, rfl⟩
  · rintro ⟨q, hr, ⟨h2, hlength, hend⟩, heq⟩
    obtain ⟨v, b'⟩ := r
    cases heq
    cases hr
    exact ⟨_, _, ⟨h2, rfl⟩, _, _, ⟨hlength, rfl⟩, hlength, hend, rfl⟩

private theorem except_map_eq_ok {α β : Type} {x : Except String α} {f : α → β} {r : β} :
    x.map f = .ok r ↔ ∃ a, x = .ok a ∧ f a = r := by
  cases x with
  | error e => simp [Except.map]
  | ok a => simp [Except.map]

private theorem bind_eq_ok_of_eq {α β : Type} {x : Reader α} {f : α → Reader β} {b b' : ByteBuffer}
    {a : α} {r : β × ByteBuffer} (hx : x b = .ok (a, b')) :
    (x >>= f) b = .ok r ↔ f a b' = .ok r := by
  rw [bind_eq_ok]
  constructor
  · rintro ⟨a₁, b₁, h, hf⟩
    rw [hx] at h
    cases h
    exact hf
  · exact fun hf => ⟨a, b', hx, hf⟩

/-- The two readers of a value: the buffer must reach back to before the key. -/
theorem parseValue_eq_ok {key : String} {b : ByteStr} {p : ℕ} {r : DataEntry × ByteBuffer} :
    parseValue key ⟨b, p⟩ = .ok r ↔
      ∃ q, r.2 = ⟨b, q⟩ ∧ parseValueAt key b p = .ok (r.1, q) ∧
        (isString r.1.value = true → 2 + (utf8Bytes key).length ≤ p) := by
  by_cases hp : b.length ≤ p
  · unfold parseValue parseValueAt
    rw [if_pos hp, bind_eq_ok]
    simp [get_eq_ok, hp]
  · have htag : ByteBuffer.get ⟨b, p⟩ = .ok (byteAt b p, ⟨b, p + 1⟩) :=
      get_eq_ok.mpr ⟨not_le.mp hp, rfl⟩
    unfold parseValue parseValueAt
    rw [if_neg hp, bind_eq_ok_of_eq htag]
    by_cases h0 : byteAt b p = 0
    · rw [if_pos h0, if_pos h0, bind_eq_ok]
      simp only [getLong_eq_ok, pure_eq_ok]
      by_cases hend : b.length < p + 1 + 8
      · rw [if_pos hend]
        simp [hend]
      · rw [if_neg hend]
        constructor
        · rintro ⟨_, _, ⟨-, h⟩, rfl⟩
          cases h
          exact ⟨p + 9, rfl, rfl, by simp [isString]⟩
        · rintro ⟨q, hr, heq, -⟩
          obtain ⟨e, b'⟩ := r
          cases heq
          cases hr
          exact ⟨_, _, ⟨not_lt.mp hend, rfl⟩, rfl⟩
    rw [if_neg h0, if_neg h0]
    by_cases h1 : byteAt b p = 1
    · rw [if_pos h1, if_pos h1, bind_eq_ok]
      simp only [get_eq_ok, pure_eq_ok]
      by_cases hend : b.length ≤ p + 1
      · rw [if_pos hend]
        simp [hend]
      · rw [if_neg hend]
        constructor
        · rintro ⟨_, _, ⟨-, h⟩, rfl⟩
          cases h
          exact ⟨p + 2, rfl, rfl, by simp [isString]⟩
        · rintro ⟨q, hr, heq, -⟩
          obtain ⟨e, b'⟩ := r
          cases heq
          cases hr
          exact ⟨_, _, ⟨not_le.mp hend, rfl⟩, rfl⟩
    rw [if_neg h1, if_neg h1]
    by_cases h2 : byteAt b p = 2
    · rw [if_pos h2, if_pos h2, bind_eq_ok]
      simp only [parseArrayWithLength_eq_ok, pure_eq_ok, except_map_eq_ok]
      constructor
      · rintro ⟨v, _, ⟨q, rfl, hv⟩, rfl⟩
        exact ⟨q, rfl, ⟨(v, q), hv, rfl⟩, by simp [isString]⟩
      · rintro ⟨q, hr, ⟨⟨v, q'⟩, hv, heq⟩, -⟩
        obtain ⟨e, b'⟩ := r
        cases heq
        cases hr
        exact ⟨v, _, ⟨_, rfl, hv⟩, rfl⟩
    rw [if_neg h2, if_neg h2]
    by_cases h3 : byteAt b p = 3
    · rw [if_pos h3, if_pos h3]
      have hthe (b' : ByteBuffer) : (getThe ByteBuffer : Reader ByteBuffer) b' = .ok (b', b') := rfl
      rw [bind_eq_ok_of_eq (hthe _), bind_eq_ok]
      simp only [parseArrayWithLength_eq_ok, except_map_eq_ok]
      -- the buffer steps back over the key and the type, the array over the key alone
      have hback : p + 1 - (3 + (utf8Bytes key).length) = p - 2 - (utf8Bytes key).length := by
        omega
      constructor
      · rintro ⟨v, _, ⟨q, rfl, hv⟩, h⟩
        rw [bind_eq_ok_of_eq (hthe _), bind_eq_ok] at h
        obtain ⟨_, _, hreq, h⟩ := h
        obtain ⟨hle, heq⟩ := require_eq_ok.mp hreq
        cases heq
        rw [pure_eq_ok] at h
        rw [h]
        dsimp only at hle ⊢
        rw [decide_eq_true_eq] at hle
        refine ⟨q, rfl, ⟨(v, q), hv, ?_⟩, fun _ => by omega⟩
        rw [hback]
      · rintro ⟨q, hr, ⟨⟨v, q'⟩, hv, heq⟩, hle⟩
        obtain ⟨e, b'⟩ := r
        cases heq
        cases hr
        refine ⟨v, _, ⟨_, rfl, hv⟩, ?_⟩
        rw [bind_eq_ok_of_eq (hthe _), bind_eq_ok]
        have hfits := hle rfl
        refine ⟨(), _, require_eq_ok.mpr ⟨?_, rfl⟩, ?_⟩
        · rw [decide_eq_true_eq]
          omega
        · rw [pure_eq_ok]
          dsimp only
          rw [hback]
    · rw [if_neg h3, if_neg h3]
      simp

/-- The two parsers of an entry. -/
theorem parse_eq_ok {b : ByteStr} {p : ℕ} {r : DataEntry × ByteBuffer} :
    parse ⟨b, p⟩ = .ok r ↔
      ∃ q, r.2 = ⟨b, q⟩ ∧ parseAt b p = .ok (r.1, q) ∧
        (isString r.1.value = true →
          (utf8Bytes (decodeUtf8 (slice b (p + 2) (shortAt b p).toNat))).length ≤
            p + (shortAt b p).toNat) := by
  unfold parse parseAt
  by_cases h2 : b.length < p + 2
  · rw [if_pos h2, bind_eq_ok]
    simp [getShort_eq_ok, h2]
  · have hshort : getShort ⟨b, p⟩ = .ok (shortAt b p, ⟨b, p + 2⟩) :=
      getShort_eq_ok.mpr ⟨not_lt.mp h2, rfl⟩
    rw [if_neg h2, bind_eq_ok_of_eq hshort]
    dsimp only
    by_cases hkey : shortAt b p < 0 ∨ b.length < p + 2 + (shortAt b p).toNat
    · rw [if_pos hkey, bind_eq_ok]
      simp only [getByteArray_eq_ok, getArray_eq_ok]
      constructor
      · rintro ⟨_, _, ⟨hlength, hend, -⟩, -⟩
        omega
      · rintro ⟨_, _, h, -⟩
        cases h
    · have hbytes : getByteArray (shortAt b p) ⟨b, p + 2⟩ =
          .ok (slice b (p + 2) (shortAt b p).toNat, ⟨b, p + 2 + (shortAt b p).toNat⟩) := by
        refine getByteArray_eq_ok.mpr ⟨by omega, getArray_eq_ok.mpr ⟨?_, rfl⟩⟩
        dsimp only
        omega
      rw [if_neg hkey, bind_eq_ok_of_eq hbytes, parseValue_eq_ok]
      have hfits (n : ℕ) : 2 + n ≤ p + 2 + (shortAt b p).toNat ↔ n ≤ p + (shortAt b p).toNat := by
        omega
      simp only [hfits]

/-- A string entry stands at this place. -/
def StringAt (b : ByteStr) (p : ℕ) : Prop :=
  let valueAt := p + 2 + (shortAt b p).toNat
  0 ≤ shortAt b p ∧ byteAt b valueAt = 3 ∧ 0 ≤ shortAt b (valueAt + 1) ∧
    valueAt + 3 + (shortAt b (valueAt + 1)).toNat ≤ b.length

/-- An entry that the array parser reads is a string entry when one stands there. -/
theorem isString_iff_of_parseAt {b : ByteStr} {p : ℕ} {r : DataEntry × ℕ}
    (h : parseAt b p = .ok r) : isString r.1.value = true ↔ StringAt b p := by
  unfold parseAt at h
  by_cases h2 : b.length < p + 2
  · rw [if_pos h2] at h
    cases h
  rw [if_neg h2] at h
  dsimp only at h
  by_cases hkey : shortAt b p < 0 ∨ b.length < p + 2 + (shortAt b p).toNat
  · rw [if_pos hkey] at h
    cases h
  rw [if_neg hkey] at h
  unfold StringAt
  generalize p + 2 + (shortAt b p).toNat = v at h hkey
  unfold parseValueAt at h
  have hnonneg : 0 ≤ shortAt b p := by omega
  split_ifs at h with hv h0 h8 h1 hx h2' h3
  · cases h
    simp [isString, h0]
  · cases h
    simp [isString, h1]
  · obtain ⟨a, -, rfl⟩ := except_map_eq_ok.mp h
    simp [isString, h2']
  · obtain ⟨a, ha, rfl⟩ := except_map_eq_ok.mp h
    obtain ⟨⟨-, hlength, hend⟩, -⟩ := parseArrayWithLengthAt_eq_ok.mp ha
    simp only [isString, true_iff]
    exact ⟨hnonneg, h3, hlength, by omega⟩

/-- The place is accepted by the array parser when a string entry stands there. -/
theorem parseAt_of_stringAt {b : ByteStr} {p : ℕ} (h : StringAt b p) :
    ∃ r, parseAt b p = .ok r := by
  obtain ⟨hkey, htag, hlength, hend⟩ := h
  have hblob := parseArrayWithLengthAt_eq_ok.mpr
    ⟨⟨by omega, hlength, by omega⟩, rfl⟩
  unfold parseAt
  rw [if_neg (by omega)]
  dsimp only
  rw [if_neg (by omega)]
  unfold parseValueAt
  rw [if_neg (by omega), if_neg (by simp [htag]), if_neg (by simp [htag]),
    if_neg (by simp [htag]), if_pos htag, hblob]
  exact ⟨_, rfl⟩

/-- **The parsers agree** on an input exactly when no string entry stands there whose key, as
it would be written again, is longer than all that stands before its value. -/
theorem parsers_agree_iff (b : ByteStr) (p : ℕ) :
    (∀ e q, parseAt b p = .ok (e, q) ↔ parse ⟨b, p⟩ = .ok (e, ⟨b, q⟩)) ↔
      (StringAt b p → (utf8Bytes (decodeUtf8 (slice b (p + 2) (shortAt b p).toNat))).length ≤
        p + (shortAt b p).toNat) := by
  constructor
  · intro h hstring
    obtain ⟨⟨e, q⟩, hr⟩ := parseAt_of_stringAt hstring
    obtain ⟨-, -, -, hfits⟩ := parse_eq_ok.mp ((h e q).mp hr)
    exact hfits ((isString_iff_of_parseAt hr).mpr hstring)
  · intro h e q
    rw [parse_eq_ok]
    constructor
    · exact fun hr => ⟨q, rfl, hr, fun hs => h ((isString_iff_of_parseAt hr).mp hs)⟩
    · rintro ⟨q', hq, hr, -⟩
      cases hq
      exact hr

/-! ## 3. What is written is read -/

/-- The bytes of a value. -/
inductive ValueBytes : ByteStr → DataEntryValue → Prop where
  | integer (n : Long) : ValueBytes (0 :: Longs.toByteArray n) (.Integer n)
  | boolean (x : Byte) : ValueBytes [1, x] (.Boolean (x ≠ 0))
  | binary (v : ByteStr) (h : v.length ≤ Short.MaxValue) :
      ValueBytes (2 :: Deser.serializeArrayWithLength v) (.Binary v)
  | string (v : ByteStr) (h : v.length ≤ Short.MaxValue) :
      ValueBytes (3 :: Deser.serializeArrayWithLength v) (.String (decodeUtf8 v))

/-- These are the bytes of an entry with this key and this value; the key of a string entry
is no longer when it is written again. -/
def Spells (b : ByteStr) (e : DataEntry) : Prop :=
  ∃ k v, b = Deser.serializeArrayWithLength k ++ v ∧ k.length ≤ Short.MaxValue ∧
    decodeUtf8 k = e.key ∧ ValueBytes v e.value ∧
    (isString e.value = true → (utf8Bytes e.key).length ≤ k.length)

/-- Two entries with one key and one value: `equals` of the case classes. -/
def Same (e e' : DataEntry) : Prop := e.key = e'.key ∧ e.value = e'.value

/-- Both parsers read the entry where its bytes stand, and all of its bytes. -/
def ReadFrom (e : DataEntry) (before after : ByteStr) : Prop :=
  let b := before ++ (e.toBytes ++ after)
  let next := before.length + e.toBytes.length
  (∃ e', parseAt b before.length = .ok (e', next) ∧ Same e' e) ∧
    ∃ e', parse ⟨b, before.length⟩ = .ok (e', ⟨b, next⟩) ∧ Same e' e

theorem valueBytes_of_valid {e : DataEntry} (hvalid : e.valid = true) :
    ValueBytes e.valueBytes e.value := by
  obtain ⟨key, value, kept⟩ := e
  rw [valid, Bool.and_eq_true] at hvalid
  obtain ⟨-, hvalue⟩ := hvalid
  cases value with
  | Integer n => exact .integer n
  | Boolean v =>
    have hb := ValueBytes.boolean (if v then 1 else 0)
    cases v <;> exact hb
  | Binary v => exact .binary v (of_decide_eq_true hvalue)
  | String v =>
    have hs := ValueBytes.string (utf8Bytes v) (of_decide_eq_true hvalue)
    rwa [decodeUtf8_utf8Bytes] at hs

/-- A character of one 16-bit unit takes at most three bytes, one of two takes four. -/
theorem length_charBytes_le (c : Char) :
    (charBytes c).length ≤ 3 * if c.toNat < 0x10000 then 1 else 2 := by
  rw [charBytes, List.length_map, String.length_utf8EncodeChar]
  have hle : c.utf8Size ≤ 4 := Char.utf8Size_le_four c
  by_cases h : c.toNat < 0x10000
  · rw [if_pos h]
    have hval : c.val ≤ 0xFFFF := by
      rw [UInt32.le_iff_toNat_le]
      have hnat : c.val.toNat < 0x10000 := h
      simpa using Nat.le_of_lt_succ hnat
    unfold Char.utf8Size
    dsimp only
    split_ifs with h1 h2 h3
    · omega
    · omega
    · omega
    · exact absurd hval h3
  · rw [if_neg h]
    omega

theorem length_utf8Bytes_le (s : String) : (utf8Bytes s).length ≤ 3 * javaLength s := by
  rw [utf8Bytes_eq, javaLength]
  generalize s.toList = l
  induction l with
  | nil => simp
  | cons c l ih =>
    have hc := length_charBytes_le c
    simp only [List.flatMap_cons, List.length_append, List.map_cons, List.sum_cons]
    omega

/-- An entry that was not read, but made, is spelt by its bytes. -/
theorem spells_toBytes {e : DataEntry} (hvalid : e.valid = true) (hkept : e.dataBytes = none) :
    Spells e.toBytes e := by
  have hkey : (utf8Bytes e.key).length ≤ Short.MaxValue := by
    have hle := length_utf8Bytes_le e.key
    rw [valid, Bool.and_eq_true, decide_eq_true_eq, MaxKeySize] at hvalid
    rw [Short.MaxValue]
    omega
  refine ⟨utf8Bytes e.key, e.valueBytes, ?_, hkey, decodeUtf8_utf8Bytes e.key,
    valueBytes_of_valid hvalid, fun _ => le_rfl⟩
  rw [toBytes, hkept]
  rfl

/-- The bytes that an entry keeps when its value is read at a place. -/
def keptAt (key : String) (l : ByteStr) (p q : ℕ) (value : DataEntryValue) : Option ByteStr :=
  let start := p - 2 - (utf8Bytes key).length
  if isString value then some (slice l start (q - start)) else none

/-- A value is read where its bytes stand. -/
theorem parseValueAt_run {v : ByteStr} {value : DataEntryValue} (hv : ValueBytes v value)
    (key : String) (before after : ByteStr) :
    let l := before ++ (v ++ after)
    let next := before.length + v.length
    parseValueAt key l before.length =
      .ok (⟨key, value, keptAt key l before.length next value⟩, next) := by
  have htaken {w : DataEntry} (htakes : Takes (parseValue key) v w) :
      parseValueAt key (before ++ (v ++ after)) before.length =
        .ok (w, before.length + v.length) := by
    obtain ⟨q, hq, hat, -⟩ := parseValue_eq_ok.mp (htakes before after)
    cases hq
    exact hat
  cases hv with
  | integer n =>
    have htakes : Takes (parseValue key) ([0] ++ (Longs.toByteArray n ++ []))
        ⟨key, .Integer n, none⟩ := (takes_get 0).bind ((takes_getLong n).bind (.pure _))
    rw [List.append_nil] at htakes
    exact htaken htakes
  | boolean x =>
    have htakes : Takes (parseValue key) ([1] ++ ([x] ++ [])) ⟨key, .Boolean (x ≠ 0), none⟩ :=
      (takes_get 1).bind ((takes_get x).bind (.pure _))
    exact htaken htakes
  | binary b hb =>
    have htakes : Takes (parseValue key) ([2] ++ (Deser.serializeArrayWithLength b ++ []))
        ⟨key, .Binary b, none⟩ :=
      (takes_get 2).bind ((takes_parseArrayWithLength hb).bind (.pure _))
    rw [List.append_nil] at htakes
    exact htaken htakes
  | string b hb =>
    -- the string case looks at the place itself, and not only at what follows
    have htag := takes_get 3 before (Deser.serializeArrayWithLength b ++ after)
    have hblob := takes_parseArrayWithLength hb (before ++ [3]) after
    have hsplit : before ++ (3 :: Deser.serializeArrayWithLength b ++ after) =
        before ++ [3] ++ (Deser.serializeArrayWithLength b ++ after) := by simp
    have hsplit' : before ++ ([3] ++ (Deser.serializeArrayWithLength b ++ after)) =
        before ++ [3] ++ (Deser.serializeArrayWithLength b ++ after) := by simp
    rw [hsplit'] at htag
    rw [hsplit]
    generalize before ++ [3] ++ (Deser.serializeArrayWithLength b ++ after) = l at htag hblob ⊢
    obtain ⟨hlt, htag⟩ := get_eq_ok.mp htag
    dsimp only at hlt ⊢
    have hbyte : byteAt l before.length = 3 := (congrArg Prod.fst htag).symm
    obtain ⟨q, hq, hat⟩ := parseArrayWithLength_eq_ok.mp hblob
    rw [List.length_append, List.length_singleton] at hat hq
    have hnext : before.length + 1 + (Deser.serializeArrayWithLength b).length =
        before.length + (3 :: Deser.serializeArrayWithLength b).length := by
      rw [List.length_cons]
      omega
    cases hq
    rw [hnext] at hat
    unfold parseValueAt
    rw [if_neg (not_le.mpr hlt), if_neg (by simp [hbyte]), if_neg (by simp [hbyte]),
      if_neg (by simp [hbyte]), if_pos hbyte, hat]
    rfl

/-- So does the buffer, if there is room for the key before it. -/
theorem parseValue_run {v : ByteStr} {value : DataEntryValue} (hv : ValueBytes v value)
    (key : String) (before after : ByteStr)
    (hfits : isString value = true → 2 + (utf8Bytes key).length ≤ before.length) :
    ∃ kept, parseValue key ⟨before ++ (v ++ after), before.length⟩ =
      .ok (⟨key, value, kept⟩, ⟨before ++ (v ++ after), before.length + v.length⟩) :=
  ⟨_, parseValue_eq_ok.mpr ⟨_, rfl, parseValueAt_run hv key before after, hfits⟩⟩

private theorem Takes.bind_run {α β : Type} {r : Reader α} {bytes : ByteStr} {a : α}
    (h : Takes r bytes a) (f : α → Reader β) (before after : ByteStr) :
    (r >>= f) ⟨before ++ (bytes ++ after), before.length⟩ =
      f a ⟨before ++ (bytes ++ after), before.length + bytes.length⟩ := by
  change (r _ >>= fun p => f p.1 p.2) = _
  rw [h before after]
  rfl

/-- The bytes of an entry are read as that entry, wherever they stand. -/
theorem parse_run {b : ByteStr} {e : DataEntry} (h : Spells b e) (before after : ByteStr) :
    ∃ e', parse ⟨before ++ (b ++ after), before.length⟩ =
      .ok (e', ⟨before ++ (b ++ after), before.length + b.length⟩) ∧ Same e' e := by
  obtain ⟨k, v, rfl, hk, hkey, hv, hfits⟩ := h
  have hk' : k.length < 2 ^ 15 := Nat.lt_of_le_of_lt hk (by decide)
  -- the length, the key and the value, each where the one before ends
  have hlength := Takes.bind_run (takes_getLength hk') (fun keyLength => do
    let bytes ← getByteArray keyLength
    parseValue (decodeUtf8 bytes)) before (k ++ (v ++ after))
  have htake : Takes (getByteArray (k.length : ℤ)) k k := takes_getByteArray rfl
  have hbytes := Takes.bind_run htake
    (fun bytes => parseValue (decodeUtf8 bytes)) (before ++ Shorts.toByteArray k.length)
    (v ++ after)
  have hroom : isString e.value = true → 2 + (utf8Bytes (decodeUtf8 k)).length ≤
      (before ++ Shorts.toByteArray k.length ++ k).length := by
    intro hs
    have hle := hfits hs
    rw [hkey]
    simp only [List.length_append, Shorts.length_toByteArray]
    omega
  obtain ⟨kept, hvalue⟩ := parseValue_run hv (decodeUtf8 k)
    (before ++ Shorts.toByteArray k.length ++ k) after hroom
  refine ⟨⟨decodeUtf8 k, e.value, kept⟩, ?_, hkey, rfl⟩
  simp only [Deser.serializeArrayWithLength, List.append_assoc, List.length_append,
    ← Nat.add_assoc] at hlength hbytes hvalue ⊢
  exact hlength.trans (hbytes.trans hvalue)

/-! ## 4. What is read was written so -/

theorem slice_succ {b : ByteStr} {p : ℕ} (h : p < b.length) (n : ℕ) :
    slice b p (n + 1) = byteAt b p :: slice b (p + 1) n := by
  unfold slice byteAt
  rw [List.drop_eq_getElem_cons h, List.take_succ_cons]
  simp [h]

theorem slice_add (b : ByteStr) (p m n : ℕ) :
    slice b p (m + n) = slice b p m ++ slice b (p + m) n := by
  unfold slice
  rw [List.take_add, List.drop_drop]

/-- A length and what it counts. -/
theorem slice_array {b : ByteStr} {p : ℕ} (h2 : p + 2 ≤ b.length) (hlength : 0 ≤ shortAt b p)
    (hend : p + 2 + (shortAt b p).toNat ≤ b.length) :
    slice b p (2 + (shortAt b p).toNat) =
        Deser.serializeArrayWithLength (slice b (p + 2) (shortAt b p).toNat) ∧
      (slice b (p + 2) (shortAt b p).toNat).length ≤ Short.MaxValue := by
  have hsize : (slice b (p + 2) (shortAt b p).toNat).length = (shortAt b p).toNat :=
    length_slice hend
  have hshort : slice b p 2 = Shorts.toByteArray (shortAt b p).toNat :=
    (Shorts.toByteArray_toNat (length_slice h2) hlength).symm
  refine ⟨?_, ?_⟩
  · rw [slice_add, Deser.serializeArrayWithLength, hsize, hshort]
  · have hle := shortAt_le b p
    rw [hsize, Short.MaxValue]
    omega

theorem valueBytes_of_parseValueAt {key : String} {b : ByteStr} {p : ℕ} {r : DataEntry × ℕ}
    (h : parseValueAt key b p = .ok r) :
    r.1.key = key ∧ p < r.2 ∧ r.2 ≤ b.length ∧ ValueBytes (slice b p (r.2 - p)) r.1.value := by
  unfold parseValueAt at h
  split_ifs at h with hv h0 h8 h1 hx h2 h3
  · cases h
    refine ⟨rfl, by omega, by omega, ?_⟩
    dsimp only
    have hlong : slice b (p + 1) 8 = Longs.toByteArray (longAt b (p + 1)) :=
      (Longs.toByteArray_fromByteArray (length_slice (by omega))).symm
    rw [show p + 9 - p = 8 + 1 by omega, slice_succ (by omega), h0, hlong]
    exact .integer _
  · cases h
    refine ⟨rfl, by omega, by omega, ?_⟩
    dsimp only
    rw [show p + 2 - p = 0 + 1 + 1 by omega, slice_succ (by omega), slice_succ (by omega), h1]
    exact .boolean _
  · obtain ⟨⟨blob, q⟩, ha, rfl⟩ := except_map_eq_ok.mp h
    obtain ⟨⟨hstart, hlength, hend⟩, heq⟩ := parseArrayWithLengthAt_eq_ok.mp ha
    cases heq
    dsimp only
    refine ⟨rfl, by omega, hend, ?_⟩
    obtain ⟨harray, hsize⟩ := slice_array hstart hlength hend
    rw [show p + 1 + 2 + (shortAt b (p + 1)).toNat - p = 2 + (shortAt b (p + 1)).toNat + 1 by omega,
      slice_succ (by omega), h2, harray]
    exact .binary _ hsize
  · obtain ⟨⟨blob, q⟩, ha, rfl⟩ := except_map_eq_ok.mp h
    obtain ⟨⟨hstart, hlength, hend⟩, heq⟩ := parseArrayWithLengthAt_eq_ok.mp ha
    cases heq
    dsimp only
    refine ⟨rfl, by omega, hend, ?_⟩
    obtain ⟨harray, hsize⟩ := slice_array hstart hlength hend
    rw [show p + 1 + 2 + (shortAt b (p + 1)).toNat - p = 2 + (shortAt b (p + 1)).toNat + 1 by omega,
      slice_succ (by omega), h3, harray]
    exact .string _ hsize

/-- An array that is read to its end holds the bytes of the entry. -/
theorem spells_of_parse {b : ByteStr} {e : DataEntry}
    (h : parse ⟨b, 0⟩ = .ok (e, ⟨b, b.length⟩)) : Spells b e := by
  obtain ⟨q, hq, hat, hfits⟩ := parse_eq_ok.mp h
  cases hq
  unfold parseAt at hat
  by_cases h2 : b.length < 0 + 2
  · rw [if_pos h2] at hat
    cases hat
  rw [if_neg h2] at hat
  dsimp only at hat hfits
  by_cases hkey : shortAt b 0 < 0 ∨ b.length < 0 + 2 + (shortAt b 0).toNat
  · rw [if_pos hkey] at hat
    cases hat
  rw [if_neg hkey] at hat
  obtain ⟨hk, -, -, hbytes⟩ := valueBytes_of_parseValueAt hat
  rw [Nat.zero_add] at h2 hkey hfits hk hbytes
  obtain ⟨harray, hsize⟩ := slice_array (b := b) (p := 0) (by omega) (by omega) (by omega)
  rw [Nat.zero_add] at harray hsize
  refine ⟨slice b 2 (shortAt b 0).toNat, _, ?_, hsize, hk.symm, hbytes, fun hs => ?_⟩
  · have hwhole : slice b 0 (2 + (shortAt b 0).toNat + (b.length - (2 + (shortAt b 0).toNat))) =
        b := by
      rw [slice, List.drop_zero, List.take_of_length_le (by omega)]
    rw [← harray]
    have hsplit := slice_add b 0 (2 + (shortAt b 0).toNat) (b.length - (2 + (shortAt b 0).toNat))
    rw [hwhole, Nat.zero_add] at hsplit
    exact hsplit
  · rw [hk, length_slice (by omega)]
    have hle := hfits hs
    rwa [Nat.zero_add] at hle

/-- **The round trip**: both parsers read an entry where its bytes stand, wherever that is,
exactly when its bytes spell it. -/
theorem readFrom_iff (e : DataEntry) :
    (∀ before after, e.ReadFrom before after) ↔ Spells e.toBytes e := by
  constructor
  · intro h
    obtain ⟨-, e', hparse, hkey, hvalue⟩ := h [] []
    rw [List.append_nil, List.nil_append, List.length_nil, Nat.zero_add] at hparse
    obtain ⟨k, v, hb, hk, hdecode, hv, hfits⟩ := spells_of_parse hparse
    rw [hkey, hvalue] at *
    exact ⟨k, v, hb, hk, hdecode, hv, hfits⟩
  · intro h before after
    obtain ⟨e', hparse, hsame⟩ := parse_run h before after
    obtain ⟨q, hq, hat, -⟩ := parse_eq_ok.mp hparse
    cases hq
    exact ⟨⟨e', hat, hsame⟩, e', hparse, hsame⟩

/-! ## 5. The stored entry -/

/-- What the database gives back: a string entry keeps the bytes of its value alone. -/
theorem stored_eq {e : DataEntry} (hvalid : e.valid = true) :
    e.stored = .ok ⟨e.key, e.value, if isString e.value then some e.valueBytes else none⟩ := by
  have hrun := parseValueAt_run (valueBytes_of_valid hvalid) e.key [] []
  dsimp only at hrun
  rw [List.append_nil, List.nil_append, List.length_nil] at hrun
  rw [stored, hrun]
  have hwhole : slice e.valueBytes 0 (0 + e.valueBytes.length - 0) = e.valueBytes := by
    rw [slice, List.drop_zero, List.take_of_length_le (by omega)]
  simp only [Except.map, keptAt, Nat.zero_sub, hwhole]

/-- The bytes of an entry that was made with this key and this value. -/
def freshBytes (e : DataEntry) : ByteStr :=
  Deser.serializeArrayWithLength (utf8Bytes e.key) ++ e.valueBytes

/-- **The stored entry** is written as before exactly when it is a string entry that was itself
stored and loaded before, or another entry that keeps no other bytes. -/
theorem toBytes_stored_iff {e : DataEntry} (hvalid : e.valid = true) :
    (∃ e', e.stored = .ok e' ∧ e'.toBytes = e.toBytes) ↔
      if isString e.value then e.dataBytes = some e.valueBytes
      else e.dataBytes = none ∨ e.dataBytes = some e.freshBytes := by
  rw [stored_eq hvalid]
  simp only [Except.ok.injEq, exists_eq_left']
  have hfresh : e.toBytes = e.dataBytes.getD e.freshBytes := rfl
  rw [hfresh]
  by_cases hs : isString e.value = true
  · simp only [if_pos hs, toBytes, Option.getD_some]
    cases e.dataBytes with
    | some b => simp [eq_comm]
    | none =>
      refine iff_of_false (fun h => ?_) (by simp)
      have hlength := congrArg List.length h
      simp [freshBytes, Deser.serializeArrayWithLength] at hlength
      omega
  · simp only [if_neg hs, toBytes, Option.getD_none]
    have hsame : Deser.serializeArrayWithLength (utf8Bytes e.key) ++
        valueBytes ⟨e.key, e.value, none⟩ = e.freshBytes := rfl
    rw [hsame]
    cases e.dataBytes with
    | some b => simp [eq_comm]
    | none => simp

/-- The entry `k` of the text `v`. -/
def textEntry : DataEntry := ⟨"k", .String "v", none⟩

end DataEntry

end WavesNode
