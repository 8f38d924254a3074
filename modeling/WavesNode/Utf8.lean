/-
Text as bytes, and back.

A string is written in UTF-8 and read again character by character. `decodeUtf8` never
fails: what is not a character reads as the replacement character. On the bytes of a string
it gives the string, and bytes that decode to plain characters are those of the string.
-/
import WavesNode.ByteBufferOps

set_option autoImplicit false

namespace WavesNode

/-! ## 1. One character -/

theorem toNat_byte {n : ℕ} (h : n < 256) : (UInt8.ofNat n).toInt8.toUInt8.toNat = n := by
  rw [UInt8.toUInt8_toInt8, UInt8.toNat_ofNat']
  omega

/-- The bytes of a character. -/
def charBytes (c : Char) : ByteStr := (String.utf8EncodeChar c).map UInt8.toInt8

theorem decodeChar_charBytes (c : Char) (rest : ByteStr) :
    decodeChar (charBytes c ++ rest) = (c, (charBytes c).length) := by
  have hvalid : c.val.toNat < 0xd800 ∨ 0xdfff < c.val.toNat ∧ c.val.toNat < 0x110000 := c.valid
  have hofNat : Char.ofNat c.val.toNat = c := Char.ofNat_toNat c
  generalize hv : c.val.toNat = v at hvalid hofNat
  unfold charBytes String.utf8EncodeChar
  rw [hv]
  dsimp only
  by_cases h1 : v ≤ 0x7f
  · rw [if_pos h1]
    simp only [List.map_cons, List.map_nil, List.cons_append, List.nil_append, decodeChar,
      List.getD_cons_zero, toNat_byte (show v < 256 by omega), List.length_singleton]
    rw [if_pos (by omega), hofNat]
  · rw [if_neg h1]
    by_cases h2 : v ≤ 0x7ff
    · rw [if_pos h2]
      have hb0 : v / 64 % 0x20 + 0xc0 < 256 := by omega
      have hb1 : v % 0x40 + 0x80 < 256 := by omega
      simp only [List.map_cons, List.map_nil, List.cons_append, List.nil_append, decodeChar,
        List.getD_cons_zero, List.getD_cons_succ, isContinuation, toNat_byte hb0, toNat_byte hb1,
        List.length_cons, List.length_nil]
      rw [if_neg (by omega), if_pos (by omega), if_pos (by simp; omega)]
      have hcode : (v / 64 % 0x20 + 0xc0 - 0xC0) * 64 + (v % 0x40 + 0x80 - 128) = v := by omega
      rw [hcode, hofNat]
    · rw [if_neg h2]
      by_cases h3 : v ≤ 0xffff
      · rw [if_pos h3]
        have hb0 : v / 4096 % 0x10 + 0xe0 < 256 := by omega
        have hb1 : v / 64 % 0x40 + 0x80 < 256 := by omega
        have hb2 : v % 0x40 + 0x80 < 256 := by omega
        simp only [List.map_cons, List.map_nil, List.cons_append, List.nil_append, decodeChar,
          List.getD_cons_zero, List.getD_cons_succ, isContinuation, toNat_byte hb0,
          toNat_byte hb1, toNat_byte hb2, List.length_cons, List.length_nil]
        rw [if_neg (by omega), if_neg (by omega), if_pos (by omega), if_neg (by simp; omega),
          if_neg (by simp; omega)]
        have hcode : ((v / 4096 % 0x10 + 0xe0 - 0xE0) * 64 + (v / 64 % 0x40 + 0x80 - 128)) * 64 +
            (v % 0x40 + 0x80 - 128) = v := by omega
        rw [hcode, hofNat]
      · rw [if_neg h3]
        have hb0 : v / 262144 % 0x08 + 0xf0 < 256 := by omega
        have hb1 : v / 4096 % 0x40 + 0x80 < 256 := by omega
        have hb2 : v / 64 % 0x40 + 0x80 < 256 := by omega
        have hb3 : v % 0x40 + 0x80 < 256 := by omega
        simp only [List.map_cons, List.map_nil, List.cons_append, List.nil_append, decodeChar,
          List.getD_cons_zero, List.getD_cons_succ, isContinuation, toNat_byte hb0,
          toNat_byte hb1, toNat_byte hb2, toNat_byte hb3, List.length_cons, List.length_nil]
        rw [if_neg (by omega), if_neg (by omega), if_neg (by omega), if_pos (by omega),
          if_neg (by simp; omega), if_neg (by simp; omega), if_neg (by simp; omega)]
        have hcode : (((v / 262144 % 0x08 + 0xf0 - 0xF0) * 64 + (v / 4096 % 0x40 + 0x80 - 128)) * 64
            + (v / 64 % 0x40 + 0x80 - 128)) * 64 + (v % 0x40 + 0x80 - 128) = v := by omega
        rw [hcode, hofNat]

/-! ## 2. Strings -/

theorem charBytes_ne_nil (c : Char) : charBytes c ≠ [] := by
  intro h
  have hlength : (String.utf8EncodeChar c).length = 0 := by
    rw [← List.length_map UInt8.toInt8]
    exact congrArg List.length h
  rw [String.length_utf8EncodeChar] at hlength
  have := c.utf8Size_pos
  omega

theorem decodeChars_flatMap (cs : List Char) :
    ∀ fuel, (cs.flatMap charBytes).length ≤ fuel → decodeChars fuel (cs.flatMap charBytes) = cs := by
  induction cs with
  | nil =>
    intro fuel _
    rcases fuel with _ | fuel <;> rfl
  | cons c cs ih =>
    intro fuel hfuel
    rw [List.flatMap_cons, List.length_append] at hfuel
    have hpos : 0 < (charBytes c).length := List.length_pos_of_ne_nil (charBytes_ne_nil c)
    obtain ⟨fuel, rfl⟩ := Nat.exists_eq_succ_of_ne_zero (show fuel ≠ 0 by omega)
    have hne : charBytes c ++ cs.flatMap charBytes ≠ [] := by
      intro h
      exact charBytes_ne_nil c (List.append_eq_nil_iff.mp h).1
    rw [List.flatMap_cons, decodeChars, decodeChar_charBytes]
    · rw [List.drop_left, ih fuel (by omega)]
    · exact hne

/-- The bytes of an array, from a place on. -/
theorem ByteArray.toList_loop (b : ByteArray) (i : ℕ) (r : List UInt8) :
    ByteArray.toList.loop b i r = r.reverse ++ b.data.toList.drop i := by
  by_cases h : i < b.size
  · rw [ByteArray.toList.loop, if_pos h, ByteArray.toList_loop b (i + 1)]
    have hlt : i < b.data.toList.length := h
    have hget : b.get! i = b.data.toList[i] := getElem!_pos b.data i h
    rw [hget, List.reverse_cons, List.append_assoc, List.singleton_append,
      List.drop_eq_getElem_cons (l := b.data.toList) (i := i) h]
  · rw [ByteArray.toList.loop, if_neg h, List.drop_eq_nil_of_le, List.append_nil]
    exact Nat.le_of_not_lt h
  termination_by b.size - i

theorem utf8Bytes_eq (s : String) : utf8Bytes s = s.toList.flatMap charBytes := by
  have htoUTF8 : s.toUTF8 = (s.toList.flatMap String.utf8EncodeChar).toByteArray :=
    String.utf8Encode_toList.symm
  have hdata : s.toUTF8.toList = s.toList.flatMap String.utf8EncodeChar := by
    rw [htoUTF8, ByteArray.toList, ByteArray.toList_loop, List.toList_data_toByteArray]
    rfl
  rw [utf8Bytes, hdata, List.map_flatMap]
  rfl

/-- **A string is read as it was written.** -/
theorem decodeUtf8_utf8Bytes (s : String) : decodeUtf8 (utf8Bytes s) = s := by
  rw [decodeUtf8, utf8Bytes_eq, decodeChars_flatMap _ _ (Nat.le_refl _), String.ofList_toList]

/-! ## 3. Plain text

A byte below 128 is its character; every other start decodes to a character that is not plain,
so that text which decodes to plain characters is spelled as it stands. -/

/-- A character of one byte that is not zero. -/
def isPlain (c : Char) : Bool := 0 < c.toNat && c.toNat < 128

theorem isPlain_ofNat {v : ℕ} (h : 128 ≤ v) : isPlain (Char.ofNat v) = false := by
  by_cases hv : v.isValidChar
  · have htoNat : (Char.ofNat v).toNat = v := by
      rw [Char.ofNat, dif_pos hv]
      rfl
    rw [isPlain, htoNat, Bool.and_eq_false_iff]
    right
    exact decide_eq_false (by omega)
  · rw [Char.ofNat, dif_neg hv]
    rfl

theorem decodeChar_plain {x : Byte} {rest : ByteStr}
    (h : isPlain (decodeChar (x :: rest)).1 = true) :
    x.toUInt8.toNat < 128 ∧ decodeChar (x :: rest) = (Char.ofNat x.toUInt8.toNat, 1) := by
  unfold decodeChar at h ⊢
  simp only [List.getD_cons_zero] at h ⊢
  by_cases h0 : x.toUInt8.toNat < 0x80
  · rw [if_pos h0]
    exact ⟨h0, rfl⟩
  · -- no other start gives a plain character
    exfalso
    rw [if_neg h0] at h
    have hreplacement : isPlain (Char.ofNat 0xFFFD) = false := isPlain_ofNat (by omega)
    revert h
    generalize Char.ofNat 0xFFFD = replacement at hreplacement ⊢
    rw [imp_false, Bool.not_eq_true]
    by_cases h2 : 0xC2 ≤ x.toUInt8.toNat ∧ x.toUInt8.toNat < 0xE0
    · rw [if_pos h2]
      split_ifs <;> dsimp only
      · exact isPlain_ofNat (by omega)
      · exact hreplacement
    · rw [if_neg h2]
      by_cases h3 : 0xE0 ≤ x.toUInt8.toNat ∧ x.toUInt8.toNat < 0xF0
      · rw [if_pos h3]
        split_ifs with hmal <;> dsimp only
        · exact hreplacement
        · exact hreplacement
        · refine isPlain_ofNat ?_
          simp only [Bool.or_eq_true, Bool.and_eq_true, decide_eq_true_eq, not_or, not_and] at hmal
          omega
      · rw [if_neg h3]
        split_ifs with h4 hmal <;> dsimp only
        · exact hreplacement
        · exact hreplacement
        · exact hreplacement
        · refine isPlain_ofNat ?_
          simp only [Bool.or_eq_true, Bool.and_eq_true, decide_eq_true_eq, not_or, not_and] at hmal
          omega
        · exact hreplacement

theorem charBytes_ofNat {x : Byte} (h : x.toUInt8.toNat < 128) :
    charBytes (Char.ofNat x.toUInt8.toNat) = [x] := by
  have hdecode := decodeChar_charBytes (Char.ofNat x.toUInt8.toNat) []
  have hvalue : (Char.ofNat x.toUInt8.toNat).val.toNat = x.toUInt8.toNat := by
    have hvalid : x.toUInt8.toNat.isValidChar := .inl (by omega)
    rw [Char.ofNat, dif_pos hvalid]
    rfl
  rw [charBytes, String.utf8EncodeChar, hvalue]
  rw [if_pos (by omega), List.map_singleton, UInt8.ofNat_toNat, Int8.toInt8_toUInt8]

/-- Plain characters are written as the bytes they were read from. -/
theorem flatMap_decodeChars : ∀ (fuel : ℕ) (b : ByteStr), b.length ≤ fuel →
    (∀ c ∈ decodeChars fuel b, isPlain c = true) → (decodeChars fuel b).flatMap charBytes = b
  | 0, b, hfuel, _ => by
    rw [List.length_eq_zero_iff.mp (Nat.le_zero.mp hfuel)]
    rfl
  | _ + 1, [], _, _ => rfl
  | fuel + 1, x :: rest, hfuel, h => by
    have hchars : decodeChars (fuel + 1) (x :: rest) =
        (decodeChar (x :: rest)).1 ::
          decodeChars fuel ((x :: rest).drop (decodeChar (x :: rest)).2) := by
      rw [decodeChars]
      exact List.cons_ne_nil x rest
    rw [hchars] at h ⊢
    obtain ⟨hx, hdecode⟩ := decodeChar_plain (h _ List.mem_cons_self)
    rw [hdecode] at h ⊢
    rw [List.flatMap_cons, charBytes_ofNat hx]
    rw [List.length_cons] at hfuel
    have hrest := flatMap_decodeChars fuel rest (by omega)
      fun c hc => h c (List.mem_cons_of_mem _ hc)
    exact congrArg ([x] ++ ·) hrest

/-- **Plain text is spelled as it stands.** -/
theorem utf8Bytes_decodeUtf8 {b : ByteStr} (h : ∀ c ∈ (decodeUtf8 b).toList, isPlain c = true) :
    utf8Bytes (decodeUtf8 b) = b := by
  rw [decodeUtf8, String.toList_ofList] at h
  rw [utf8Bytes_eq, decodeUtf8, String.toList_ofList]
  exact flatMap_decodeChars b.length b (Nat.le_refl _) h

end WavesNode
