/-
Parts of a transaction, and what is written for them.

A reader takes a stretch of an array. For most parts what it gives is written as that stretch
(`stretch_…`). Some parts have several spellings, and what is written for them stands there
only under a condition (`spelt_…`): the chain of an alias, which may be left open and is
written with the node's own, the length inside a new alias, and a script, which is written
from its expression.
-/
import WavesNode.CallBytes
import WavesNode.TransactionBytes
import WavesNode.StaticConstraints

set_option autoImplicit false

namespace WavesNode

open ByteBuffer

variable {l : ByteStr} {p : ℕ}

/-! ## 1. Parts with one spelling -/

theorem stretch_of_spells {w : ByteStr} {q : ℕ} (h : Lang.Spells True l p q w) :
    Stretch l p w q := by
  obtain ⟨hle, hslice⟩ := h
  have hstretch := stretch_slice l p (q - p)
  rwa [hslice trivial, Nat.add_sub_cancel' hle] at hstretch

theorem stretch_get : Reads ByteBuffer.get l p fun x q =>
    (x = byteAt l p ∧ q = p + 1) ∧ p < l.length ∧ Stretch l p [x] q := by
  intro x b' h
  obtain ⟨harray, hvalue⟩ := reads_get x b' h
  obtain ⟨-, hspells⟩ := Lang.spelled_get True l p x b' h
  exact ⟨harray, hvalue, (get_eq_ok.mp h).1, stretch_of_spells hspells⟩

theorem stretch_getLong : Reads getLong l p fun x q =>
    q = p + 8 ∧ Stretch l p (Longs.toByteArray x) q :=
  (reads_getLong.and (Lang.spelled_getLong True l p)).mono fun _ _ h =>
    ⟨h.1.2, stretch_of_spells h.2⟩

theorem stretch_getArray {n : ℕ} : Reads (getArray n) l p fun a q =>
    (a = slice l p n ∧ a.length = n ∧ q = p + n) ∧ Stretch l p a q := by
  refine reads_getArray.mono ?_
  rintro a q ⟨rfl, hlength, rfl⟩
  exact ⟨⟨rfl, hlength, rfl⟩, stretch_slice l p n⟩

theorem stretch_getByteArray {size : ℤ} : Reads (getByteArray size) l p fun a q =>
    (0 ≤ size ∧ a = slice l p size.toNat ∧ a.length = size.toNat ∧ q = p + size.toNat) ∧
      Stretch l p a q := by
  refine reads_getByteArray.mono ?_
  rintro a q ⟨hsize, rfl, hlength, rfl⟩
  exact ⟨⟨hsize, rfl, hlength, rfl⟩, stretch_slice l p _⟩

theorem stretch_getPublicKey : Reads getPublicKey l p fun a q =>
    q = p + KeyLength ∧ Stretch l p a q :=
  stretch_getArray.mono fun _ _ h => ⟨h.1.2.2, h.2⟩

theorem stretch_getSignature : Reads getSignature l p fun a q =>
    q = p + SignatureLength ∧ Stretch l p a q :=
  stretch_getArray.mono fun _ _ h => ⟨h.1.2.2, h.2⟩

theorem stretch_getIssuedAsset : Reads getIssuedAsset l p fun a q =>
    q = p + AssetIdLength ∧ Stretch l p a.id q :=
  stretch_getArray.map fun _ _ h => ⟨h.1.2.2, h.2⟩

theorem stretch_getAsset : Reads getAsset l p fun a q =>
    q = p + assetWidth l p ∧ Stretch l p a.byteRepr q := by
  refine stretch_get.bind ?_
  rintro prefix_ _ ⟨⟨hfirst, rfl⟩, -, hstretch⟩
  unfold assetWidth
  rw [← hfirst]
  refine .ite (fun h0 => ?_) fun h0 => .ite (fun h1 => ?_) fun _ => .throw
  · rw [if_pos h0]
    rw [h0] at hstretch
    exact .pure ⟨rfl, hstretch⟩
  · rw [if_neg h0]
    rw [h1] at hstretch
    refine stretch_getIssuedAsset.map ?_
    rintro a _ ⟨rfl, ha⟩
    exact ⟨Nat.add_assoc p 1 _, hstretch.append ha⟩

theorem stretch_getBoolean : Reads getBoolean l p fun b q =>
    q = p + 1 ∧ Stretch l p (Deser.serializeBoolean b) q := by
  refine stretch_get.bind ?_
  rintro x _ ⟨⟨-, rfl⟩, -, hstretch⟩
  refine .ite (fun h0 => ?_) fun _ => .ite (fun h1 => ?_) fun _ => .throw
  · rw [h0] at hstretch
    exact .pure ⟨rfl, hstretch⟩
  · rw [h1] at hstretch
    exact .pure ⟨rfl, hstretch⟩

/-- A length that is not negative. -/
theorem stretch_getLength : Reads getShort l p fun n q =>
    (n = shortAt l p ∧ q = p + 2) ∧ p + 2 ≤ l.length ∧
      (0 ≤ n → Stretch l p (Shorts.toByteArray n.toNat) q) := by
  intro n b' h
  obtain ⟨harray, rfl, hq⟩ := reads_getShort n b' h
  obtain ⟨hle, -⟩ := getShort_eq_ok.mp h
  refine ⟨harray, ⟨rfl, hq⟩, hle, fun hn => ?_⟩
  rw [hq, shortAt, Shorts.toByteArray_toNat (length_slice hle) hn]
  exact stretch_slice l p 2

theorem stretch_parseArrayWithLength : Reads Deser.parseArrayWithLength l p fun a q =>
    (a = slice l (p + 2) (arrayLength l p) ∧ a.length = arrayLength l p ∧
      q = p + arrayWidth l p) ∧ Stretch l p (Deser.serializeArrayWithLength a) q := by
  refine stretch_getLength.bind ?_
  rintro n _ ⟨⟨hn, rfl⟩, -, hlength⟩
  refine reads_require.bind ?_
  rintro _ _ ⟨hsize, rfl⟩
  have hstretch := hlength (of_decide_eq_true hsize)
  refine reads_getByteArray.mono ?_
  rintro a q ⟨-, rfl, ha, rfl⟩
  rw [hn] at ha hstretch ⊢
  refine ⟨⟨rfl, ha, Nat.add_assoc p 2 _⟩, ?_⟩
  rw [Deser.serializeArrayWithLength, ha]
  exact hstretch.append (stretch_slice l (p + 2) _)

/-- After a flag of one an array; any other flag is for none. -/
theorem stretch_parseByteArrayOptionWithLength :
    Reads Deser.parseByteArrayOptionWithLength l p fun a q => p < l.length ∧
      (byteAt l p = 1 → ∃ arr, a = some arr ∧ arr = slice l (p + 3) (arrayLength l (p + 1)) ∧
        arr.length = arrayLength l (p + 1) ∧ Stretch l p [1] (p + 1) ∧
          Stretch l (p + 1) (Deser.serializeArrayWithLength arr) q) ∧
      (byteAt l p ≠ 1 → a = none ∧ q = p + 1) := by
  refine stretch_get.bind ?_
  rintro flag _ ⟨⟨hflag, rfl⟩, hlt, hstretch⟩
  refine .ite (fun h1 => ?_) fun h1 => ?_
  · refine stretch_parseArrayWithLength.map ?_
    rintro arr q ⟨⟨harr, hlength, -⟩, harrStretch⟩
    rw [h1] at hflag hstretch
    exact ⟨hlt, fun _ => ⟨arr, rfl, harr, hlength, hstretch, harrStretch⟩,
      fun hne => absurd hflag.symm hne⟩
  · rw [hflag] at h1
    exact .pure ⟨hlt, fun h => absurd h h1, fun _ => ⟨rfl, rfl⟩⟩

theorem stretch_parseArrays : Reads Deser.parseArrays l p fun as q =>
    q = arraysEnd l p ∧ Stretch l p (Deser.serializeArrays as) q := by
  refine stretch_getLength.bind ?_
  rintro n _ ⟨⟨hn, rfl⟩, -, hlength⟩
  refine reads_require.bind ?_
  rintro _ _ ⟨hsize, rfl⟩
  have hcount := hlength (of_decide_eq_true hsize)
  refine reads_getThe.bind ?_
  rintro buf _ ⟨-, rfl⟩
  refine reads_require.bind ?_
  rintro _ _ ⟨-, rfl⟩
  have hread : ∀ r, Reads Deser.parseArrayWithLength l r fun a q =>
      q = nextArray l r ∧ Spelt l r (Deser.serializeArrayWithLength a) True q := fun r =>
    (stretch_parseArrayWithLength (l := l) (p := r)).mono fun a q h => ⟨h.1.2.2, h.2.spelt trivial⟩
  refine (Reads.spelt_fill hread n.toNat (p + 2)).mono ?_
  rintro as _ ⟨has, rfl, hspelt⟩
  unfold arraysEnd
  rw [← hn]
  refine ⟨rfl, ?_⟩
  rw [Deser.serializeArrays, has]
  exact hcount.append (hspelt.stretch fun _ _ => trivial)

/-- The proofs, up to where bytes that are not read may stand. -/
theorem stretch_getProofs : Reads getProofs l p fun proofs _ =>
    proofs.writable = true ∧ Stretch l p proofs.bytes (arraysEnd l (p + 1)) := by
  have hreads : Reads getProofs l p fun proofs _ =>
      Stretch l p proofs.bytes (arraysEnd l (p + 1)) := by
    refine stretch_get.bind ?_
    rintro version _ ⟨⟨-, rfl⟩, -, hstretch⟩
    refine reads_require.bind ?_
    rintro _ _ ⟨hversion, rfl⟩
    rw [of_decide_eq_true hversion] at hstretch
    refine stretch_parseArrays.bind ?_
    rintro as _ ⟨rfl, has⟩
    refine reads_explicitGet.bind fun _ _ _ => ?_
    intro proofs b' h
    cases h
    exact ⟨rfl, hstretch.append has⟩
  exact (hreads.and reads_getProofs).mono fun proofs q h => ⟨(Proofs.of_read h.2.1 h.2.2).1, h.1⟩

/-! ## 2. Recipients and aliases -/

section

variable [Crypto]

theorem Address.chainId_of_fromBytes {bytes : ByteStr} {a : Address}
    (h : Address.fromBytes bytes = .ok a) : byteAt bytes 1 = Crypto.chainId := by
  unfold Address.fromBytes at h
  by_cases hlength : bytes.length ≠ Address.AddressLength
  · rw [if_pos hlength] at h
    cases h
  · rw [if_neg hlength] at h
    dsimp only at h
    by_cases hversion : bytes.getD 0 0 ≠ Address.AddressVersion
    · rw [if_pos hversion] at h
      cases h
    · rw [if_neg hversion] at h
      by_contra hnetwork
      have hne : bytes.getD 1 0 ≠ Crypto.chainId := hnetwork
      rw [if_pos hne] at h
      cases h

theorem stretch_getAddress : Reads getAddress l p fun a q =>
    (q = p + Address.AddressLength ∧ byteAt l (p + 1) = Crypto.chainId ∧
      a.bytes.length = Address.AddressLength) ∧ Stretch l p a.bytes q := by
  refine stretch_getArray.bind ?_
  rintro bytes _ ⟨⟨hbytes, hlength, rfl⟩, hstretch⟩
  refine reads_explicitGet.mono ?_
  rintro a _ ⟨ha, rfl⟩
  have hchain := Address.chainId_of_fromBytes ha
  rw [Address.fromBytes_bytes ha]
  rw [hbytes, byteAt_slice (by decide)] at hchain
  exact ⟨⟨rfl, hchain, hlength⟩, hstretch⟩

omit [Crypto] in
theorem isPlain_of_isValidAliasChar {c : Char} (h : Alias.isValidAliasChar c = true) :
    isPlain c = true := by
  have hbounds : ∀ a b : Char, 0 < a.toNat → b.toNat < 128 → a ≤ c → c ≤ b →
      isPlain c = true := by
    intro a b ha hb hac hcb
    rw [isPlain, Bool.and_eq_true, decide_eq_true_eq, decide_eq_true_eq]
    have hac' : a.toNat ≤ c.toNat := hac
    have hcb' : c.toNat ≤ b.toNat := hcb
    omega
  rw [Alias.isValidAliasChar, Bool.decide_or, Bool.or_eq_true, decide_eq_true_eq] at h
  rcases h with ⟨h0, h9⟩ | h
  · exact hbounds '0' '9' (by decide) (by decide) h0 h9
  rw [Bool.decide_or, Bool.or_eq_true, decide_eq_true_eq] at h
  rcases h with ⟨ha, hz⟩ | h
  · exact hbounds 'a' 'z' (by decide) (by decide) ha hz
  rw [decide_eq_true_eq] at h
  rcases h with rfl | rfl | rfl | rfl <;> rfl

/-- An alias is written with the node's own chain, and with the name it was read from. -/
theorem Alias.bytes_of_createWithChainId {name : ByteStr} {chainId : Byte} {a : Alias}
    (h : Alias.createWithChainId (decodeUtf8 name) chainId = .ok a) :
    a.bytes = [Alias.AddressVersion, Crypto.chainId] ++ Deser.serializeArrayWithLength name := by
  unfold Alias.createWithChainId at h
  by_cases hlength : (decodeUtf8 name).length < Alias.MinLength ∨
      Alias.MaxLength < (decodeUtf8 name).length
  · rw [if_pos hlength] at h
    cases h
  rw [if_neg hlength] at h
  by_cases hchars : (!(decodeUtf8 name).toList.all Alias.isValidAliasChar) = true
  · rw [if_pos hchars] at h
    cases h
  rw [if_neg hchars] at h
  by_cases hchain : chainId ≠ 0 ∧ chainId ≠ Crypto.chainId
  · rw [if_pos hchain] at h
    cases h
  rw [if_neg hchain] at h
  have hchainId : (if chainId = 0 then Crypto.chainId else chainId) = Crypto.chainId := by
    by_cases h0 : chainId = 0
    · rw [if_pos h0]
    · rw [if_neg h0]
      by_contra hne
      exact hchain ⟨h0, hne⟩
  have hplain : utf8Bytes (decodeUtf8 name) = name := by
    refine utf8Bytes_decodeUtf8 fun c hc => isPlain_of_isValidAliasChar ?_
    rw [Bool.not_eq_true, Bool.not_eq_false'] at hchars
    exact List.all_eq_true.mp hchars c hc
  rw [← Except.ok.inj h, Alias.bytes, hplain, hchainId]
  rfl

theorem Alias.bytes_of_fromBytes {bytes : ByteStr} {a : Alias} (h : Alias.fromBytes bytes = .ok a) :
    ∃ chainId x y name, bytes = [Alias.AddressVersion, chainId] ++ ([x, y] ++ name) ∧
      a.bytes = [Alias.AddressVersion, Crypto.chainId] ++ Deser.serializeArrayWithLength name := by
  unfold Alias.fromBytes at h
  split at h
  · rename_i version chainId x y name
    by_cases hversion : version = Alias.AddressVersion
    · rw [if_pos hversion] at h
      exact ⟨chainId, x, y, name, by rw [hversion]; rfl, Alias.bytes_of_createWithChainId h⟩
    · rw [if_neg hversion] at h
      cases h
  · cases h

/-- The chain of a recipient is the node's; an alias may also leave it open. -/
def RecipientSpelled (l : ByteStr) (p : ℕ) : Prop := byteAt l (p + 1) = Crypto.chainId

omit [Crypto] in
theorem le_of_length_slice {n : ℕ} (h : (slice l p n).length = n) (hn : 0 < n) :
    p + n ≤ l.length := by
  rw [slice, List.length_take, List.length_drop] at h
  omega

omit [Crypto] in
theorem slice_two (h : p + 2 ≤ l.length) : slice l p 2 = [byteAt l p, byteAt l (p + 1)] := by
  have hlength := length_slice h
  have hfirst : byteAt (slice l p 2) 0 = byteAt l p := byteAt_slice (by omega)
  have hsecond : byteAt (slice l p 2) 1 = byteAt l (p + 1) := byteAt_slice (by omega)
  rw [← hfirst, ← hsecond]
  match slice l p 2, hlength with
  | [_, _], _ => rfl

/-- The two bytes before the length of an alias, of which only the first is compared. -/
theorem spelt_aliasHeader (hle : p + 2 ≤ l.length) (hversion : byteAt l p = Alias.AddressVersion) :
    Spelt l p [Alias.AddressVersion, Crypto.chainId] (RecipientSpelled l p) (p + 2) := by
  refine (spelt_of_length (n := 2) rfl hle).congr ?_
  rw [slice_two hle, hversion, RecipientSpelled]
  simp

/-- The alias of an array: its chain is compared, and the length before its name. -/
theorem spelt_alias {bytes : ByteStr} {a : Alias} {q : ℕ} (h : Alias.fromBytes bytes = .ok a)
    (hstretch : Stretch l p bytes q) (hbytes : bytes = slice l p bytes.length) :
    Spelt l p a.bytes
      (RecipientSpelled l p ∧ slice l (p + 2) 2 = Shorts.toByteArray (bytes.length - 4)) q := by
  obtain ⟨chainId, x, y, name, hparts, hwritten⟩ := Alias.bytes_of_fromBytes h
  have hlength : bytes.length = 4 + name.length := by
    rw [hparts]
    simp only [List.length_append, List.length_cons, List.length_nil]
    omega
  have hle : p + bytes.length ≤ l.length :=
    le_of_length_slice (by rw [← hbytes]) (by omega)
  have hversion : byteAt l p = Alias.AddressVersion := by
    have hbyte : byteAt (slice l p bytes.length) 0 = byteAt l p := byteAt_slice (by omega)
    rw [← hbytes, hparts] at hbyte
    exact hbyte.symm
  have hxy : slice l (p + 2) 2 = [x, y] := by
    have hslice : slice (slice l p bytes.length) 2 2 = slice l (p + 2) 2 := slice_slice (by omega)
    rw [← hslice, ← hbytes, hparts]
    rfl
  have hname : Stretch l (p + 2 + 2) name q := by
    rw [Stretch, ← List.drop_drop, ← List.drop_drop, hstretch, hparts]
    simp
  have hlengthPart := spelt_of_length (w := Shorts.toByteArray name.length) (n := 2)
    (Shorts.length_toByteArray _) (show p + 2 + 2 ≤ l.length by omega)
  rw [hwritten, Deser.serializeArrayWithLength, ← List.append_assoc, hlength,
    Nat.add_sub_cancel_left]
  exact ((spelt_aliasHeader (by omega) hversion).append hlengthPart).append_stretch hname

theorem spelt_getAddressOrAlias : Reads getAddressOrAlias l p fun a q =>
    q = p + recipientWidth l p ∧ Spelt l p a.bytes (RecipientSpelled l p) q := by
  have hwidth : Reads getAddressOrAlias l p fun _ q => q = p + recipientWidth l p :=
    reads_getAddressOrAlias.mono fun _ _ h => h.2
  refine (hwidth.and (R := fun a q => Spelt l p a.bytes (RecipientSpelled l p) q) ?_)
  refine reads_peek.bind ?_
  rintro prefix_ _ ⟨-, rfl⟩
  refine .ite (fun _ => ?_) fun _ => .ite (fun _ => ?_) fun _ => .throw
  · exact stretch_getAddress.map fun a q h => h.2.spelt h.1.2.1
  · refine reads_peekShort.bind ?_
    rintro length q ⟨hlength, rfl⟩
    refine stretch_getByteArray.bind ?_
    rintro bytes _ ⟨⟨hsize, hbytes, hlen, rfl⟩, hstretch⟩
    refine reads_explicitGet.map ?_
    rintro a _ ⟨ha, rfl⟩
    rw [← hlen] at hbytes
    refine (spelt_alias ha hstretch hbytes).congr (and_iff_left ?_)
    -- the length that stands there is the one the alias was taken by
    have hfour := Alias.length_of_fromBytes ha
    have hle : q + bytes.length ≤ l.length :=
      le_of_length_slice (by rw [← hbytes]) (by omega)
    have hnonneg : 0 ≤ shortAt l (q + 2) := by omega
    have hwritten : Shorts.toByteArray (shortAt l (q + 2)).toNat = slice l (q + 2) 2 :=
      Shorts.toByteArray_toNat (length_slice (by omega)) hnonneg
    have hsame : bytes.length - 4 = (shortAt l (q + 2)).toNat := by omega
    rw [hsame]
    exact hwritten.symm

theorem spelt_AddressOrAlias_read : Reads AddressOrAlias.read l p fun a q =>
    q = p + recipientWidth l p ∧ Spelt l p a.bytes (RecipientSpelled l p) q := by
  refine reads_AddressOrAlias_read.and (R := fun a q => Spelt l p a.bytes (RecipientSpelled l p) q) ?_
  refine reads_peek.bind ?_
  rintro version q ⟨hversion, rfl⟩
  refine .ite (fun _ => ?_) fun _ => .ite (fun halias => ?_) fun _ => .throw
  · exact stretch_getAddress.map fun a q h => h.2.spelt h.1.2.1
  · refine stretch_getArray.bind ?_
    rintro header _ ⟨⟨hheader, hlength, rfl⟩, -⟩
    refine stretch_parseArrayWithLength.bind ?_
    rintro name _ ⟨⟨-, -, rfl⟩, hname⟩
    refine reads_explicitGet.map ?_
    rintro a _ ⟨ha, rfl⟩
    have hle : q + 2 ≤ l.length := le_of_length_slice (by rw [← hheader, hlength]) (by omega)
    rw [hversion] at halias
    rw [AddressOrAlias.bytes, Alias.bytes_of_createWithChainId ha]
    exact (spelt_aliasHeader hle halias).append_stretch hname

omit [Crypto] in
theorem Shorts.toByteArray_inj {m n : ℕ} (hm : m < 2 ^ 15) (hn : n < 2 ^ 15)
    (h : Shorts.toByteArray m = Shorts.toByteArray n) : m = n := by
  have hread := congrArg BigEndian.read h
  rw [Shorts.toByteArray, Shorts.toByteArray, BigEndian.read_write, BigEndian.read_write] at hread
  omega

omit [Crypto] in
/-- An array under its length: what is written is what stands there, or it is another array. -/
theorem spelt_array {a w : ByteStr} {q : ℕ} (ha : a.length < 2 ^ 15) (hw : w.length < 2 ^ 15)
    (h : Stretch l p (Deser.serializeArrayWithLength a) q) :
    Spelt l p (Deser.serializeArrayWithLength w) (a = w) q := by
  intro t
  rw [h, Deser.serializeArrayWithLength, Deser.serializeArrayWithLength, List.append_assoc,
    List.append_assoc]
  constructor
  · intro hsame
    obtain ⟨hlength, hrest⟩ := List.append_inj hsame (by simp)
    exact List.append_inj hrest (Shorts.toByteArray_inj ha hw hlength)
  · rintro ⟨rfl, rfl⟩
    rfl

omit [Crypto] in
theorem arrayLength_lt (l : ByteStr) (p : ℕ) : arrayLength l p < 2 ^ 15 := by
  have hle := shortAt_le l p
  rw [arrayLength]
  omega

/-- The alias of a new one: the chain, and the length inside the array. -/
def AliasSpelled (l : ByteStr) (p : ℕ) : Prop :=
  RecipientSpelled l (p + 2) ∧ slice l (p + 4) 2 = Shorts.toByteArray (arrayLength l p - 4)

theorem spelt_getAlias : Reads getAlias l p fun a q => q = p + arrayWidth l p ∧
    Spelt l p (Deser.serializeArrayWithLength a.bytes) (AliasSpelled l p) q := by
  refine stretch_parseArrayWithLength.bind ?_
  rintro bytes _ ⟨⟨hbytes, hlength, rfl⟩, hstretch⟩
  refine reads_explicitGet.mono ?_
  rintro a _ ⟨ha, rfl⟩
  refine ⟨rfl, ?_⟩
  rw [← hlength] at hbytes
  -- the alias has as many bytes as it was read from
  have hsame : a.bytes.length = bytes.length := by
    obtain ⟨chainId, x, y, name, hparts, hwritten⟩ := Alias.bytes_of_fromBytes ha
    rw [hparts, hwritten, Deser.serializeArrayWithLength]
    simp only [List.length_append, List.length_cons, List.length_nil, Shorts.length_toByteArray]
  have hinner : Stretch l (p + 2) bytes (p + arrayWidth l p) := by
    have hslice := stretch_slice l (p + 2) (arrayLength l p)
    rwa [← hlength, ← hbytes, hlength, Nat.add_assoc] at hslice
  have hcount : Stretch l p (Shorts.toByteArray a.bytes.length) (p + 2) := by
    rw [Stretch, hinner, hstretch, Deser.serializeArrayWithLength, hsame, List.append_assoc]
  have hspelt := hcount.append_spelt (spelt_alias ha hinner hbytes)
  rw [hlength] at hspelt
  exact hspelt

end

/-! ## 3. Scripts -/

section

variable [ScriptReader]

/-- After a flag of zero or one, a script that is written as it stands. -/
def ScriptSpelled (l : ByteStr) (p : ℕ) : Prop :=
  byteAt l p = 0 ∨ byteAt l p = 1 ∧ ∀ s,
    ScriptReader.fromBytes (slice l (p + 3) (arrayLength l (p + 1))) = .ok s →
      s.bytes = slice l (p + 3) (arrayLength l (p + 1))

theorem spelt_getScript : Reads getScript l p fun s q => q = p + optionalArrayWidth l p ∧
    (ScriptSpelled l p → scriptFits s = true) ∧ (scriptFits s = true →
      Spelt l p (Deser.serializeOptionOfArrayWithLength (s.map Script.bytes))
        (ScriptSpelled l p) q) := by
  have hwidth : Reads getScript l p fun _ q => q = p + optionalArrayWidth l p :=
    reads_getScript.mono fun _ _ h => h.2
  refine hwidth.and (R := fun s q => (ScriptSpelled l p → scriptFits s = true) ∧
    (scriptFits s = true → Spelt l p
      (Deser.serializeOptionOfArrayWithLength (s.map Script.bytes)) (ScriptSpelled l p) q)) ?_
  refine stretch_parseByteArrayOptionWithLength.bind ?_
  rintro a q ⟨hlt, hsome, hnone⟩
  by_cases h1 : byteAt l p = 1
  · obtain ⟨arr, rfl, harr, hlength, hflag, hstretch⟩ := hsome h1
    dsimp only
    rcases hs : ScriptReader.fromBytes arr with e | s
    · exact .throw
    · refine .pure ?_
      -- the flag is the one that is written, and the script is compared
      have hspelled : ScriptSpelled l p ↔ arr = s.bytes := by
        rw [ScriptSpelled, ← harr, hs, h1]
        constructor
        · rintro (h0 | ⟨-, h⟩)
          · cases h0
          · exact (h s rfl).symm
        · rintro rfl
          refine .inr ⟨rfl, fun s' hs' => ?_⟩
          rw [Except.ok.inj hs']
      have hshort : arr.length < 2 ^ 15 := by
        rw [hlength]
        exact arrayLength_lt l (p + 1)
      refine ⟨fun h => ?_, fun hfits => ?_⟩
      · rw [hspelled] at h
        rw [scriptFits, Option.all_some, ← h, Short.isValid, Short.MaxValue, decide_eq_true_eq]
        omega
      · rw [scriptFits, Option.all_some, Short.isValid, Short.MaxValue, decide_eq_true_eq] at hfits
        have hspelt := spelt_array (w := s.bytes) hshort (by omega) hstretch
        exact (hflag.append_spelt hspelt).congr hspelled.symm
  · obtain ⟨rfl, rfl⟩ := hnone h1
    refine .pure ⟨fun _ => rfl, fun _ => ?_⟩
    refine (spelt_of_length (w := [0]) (n := 1) rfl hlt).congr ?_
    have hslice : slice l p 1 = [byteAt l p] := by
      rw [slice, byteAt, List.getD_eq_getElem?_getD, List.getElem?_eq_getElem hlt,
        List.drop_eq_getElem_cons hlt]
      rfl
    rw [hslice, ScriptSpelled, List.cons.injEq]
    simp [h1]

end

end WavesNode
