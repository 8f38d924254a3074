/-
Where the parts of a transaction stand in an array.

The width of an asset, of an array with its length, of a recipient and of a script is
told by their first bytes. Each width is a function of the array and a place, and the
reader of the part, when it answers, gives what stands there and moves by the width:
the `reads_…` lemmas. The widths are written from the formats alone; no parser occurs
in them.
-/
import WavesNode.TransactionParsers

set_option autoImplicit false

namespace WavesNode

open ByteBuffer

variable {l : ByteStr} {p : ℕ}

/-! ## 1. Widths -/

/-- An asset: a zero byte, or a one and the id. -/
def assetWidth (l : ByteStr) (p : ℕ) : ℕ := if byteAt l p = 0 then 1 else 1 + AssetIdLength

def assetAt (l : ByteStr) (p : ℕ) : Asset :=
  if byteAt l p = 0 then .Waves else .issued ⟨slice l (p + 1) AssetIdLength⟩

/-- The length an array is written after. -/
def arrayLength (l : ByteStr) (p : ℕ) : ℕ := (shortAt l p).toNat

def arrayWidth (l : ByteStr) (p : ℕ) : ℕ := 2 + arrayLength l p

/-- The array that may stand after a flag. -/
def optionalArrayWidth (l : ByteStr) (p : ℕ) : ℕ :=
  if byteAt l p = 1 then 1 + arrayWidth l (p + 1) else 1

/-- A recipient: an address, or a version, a chain and the array of an alias. -/
def recipientWidth (l : ByteStr) (p : ℕ) : ℕ :=
  if byteAt l p = Address.AddressVersion then Address.AddressLength else 2 + arrayWidth l (p + 2)

/-- The places of `n` arrays, and the place after them. -/
def nextArray (l : ByteStr) (p : ℕ) : ℕ := p + arrayWidth l p

/-- The arrays that stand after their number. -/
def arrayPlaces (l : ByteStr) (p : ℕ) : List ℕ :=
  List.iterate (nextArray l) (p + 2) (shortAt l p).toNat

def arraysEnd (l : ByteStr) (p : ℕ) : ℕ := (nextArray l)^[(shortAt l p).toNat] (p + 2)

/-! ## 2. Arrays, assets and scripts -/

theorem reads_parseArrayWithLength : Reads Deser.parseArrayWithLength l p fun a q =>
    a = slice l (p + 2) (arrayLength l p) ∧ a.length = arrayLength l p ∧
      q = p + arrayWidth l p := by
  refine reads_getShort.bind ?_
  rintro length _ ⟨rfl, rfl⟩
  refine reads_require.bind ?_
  rintro _ _ ⟨-, rfl⟩
  refine reads_getByteArray.mono ?_
  rintro a q ⟨-, ha, hlen, rfl⟩
  exact ⟨ha, hlen, Nat.add_assoc p 2 _⟩

theorem reads_parseArrays : Reads Deser.parseArrays l p fun as q =>
    as = (arrayPlaces l p).map (fun r => slice l (r + 2) (arrayLength l r)) ∧
      as.map List.length = (arrayPlaces l p).map (arrayLength l) ∧ q = arraysEnd l p := by
  refine reads_getShort.bind ?_
  rintro count _ ⟨rfl, rfl⟩
  refine reads_require.bind ?_
  rintro _ _ ⟨-, rfl⟩
  refine reads_getThe.bind ?_
  rintro buf _ ⟨-, rfl⟩
  refine reads_require.bind ?_
  rintro _ _ ⟨-, rfl⟩
  have hread : ∀ r, Reads Deser.parseArrayWithLength l r fun a q =>
      (a, a.length) = (slice l (r + 2) (arrayLength l r), arrayLength l r) ∧
        q = nextArray l r := fun r =>
    (reads_parseArrayWithLength (l := l) (p := r)).mono
      fun a q h => ⟨Prod.ext h.1 h.2.1, h.2.2⟩
  have hfill := Reads.fill hread (shortAt l p).toNat (p + 2)
  refine hfill.mono ?_
  rintro as q ⟨has, rfl⟩
  unfold arrayPlaces
  refine ⟨?_, ?_, rfl⟩
  · have hfst := congrArg (List.map Prod.fst) has
    simpa [Function.comp_def] using hfst
  · have hsnd := congrArg (List.map Prod.snd) has
    simpa [Function.comp_def] using hsnd

theorem reads_getIssuedAsset : Reads getIssuedAsset l p fun a q =>
    a = ⟨slice l p AssetIdLength⟩ ∧ a.id.length = AssetIdLength ∧ q = p + AssetIdLength :=
  reads_getArray.map fun _ _ h => ⟨congrArg IssuedAsset.mk h.1, h.2.1, h.2.2⟩

theorem reads_getAsset : Reads getAsset l p fun a q =>
    a = assetAt l p ∧ a.byteRepr.length = assetWidth l p ∧ q = p + assetWidth l p := by
  refine reads_get.bind ?_
  rintro prefix_ _ ⟨rfl, rfl⟩
  unfold assetAt assetWidth
  by_cases h0 : byteAt l p = 0
  · rw [if_pos h0, if_pos h0, if_pos h0]
    exact .pure ⟨rfl, rfl, rfl⟩
  · rw [if_neg h0, if_neg h0, if_neg h0]
    by_cases h1 : byteAt l p = 1
    · rw [if_pos h1]
      refine reads_getIssuedAsset.map ?_
      rintro a q ⟨rfl, hlen, rfl⟩
      refine ⟨rfl, ?_, Nat.add_assoc p 1 _⟩
      rw [Asset.byteRepr, List.length_cons, hlen, Nat.add_comm]
    · rw [if_neg h1]
      exact .throw

theorem reads_getBoolean : Reads getBoolean l p fun _ q => q = p + 1 := by
  refine reads_get.bind ?_
  rintro b _ ⟨rfl, rfl⟩
  by_cases h0 : byteAt l p = 0
  · rw [if_pos h0]
    exact .pure rfl
  · rw [if_neg h0]
    by_cases h1 : byteAt l p = 1
    · rw [if_pos h1]
      exact .pure rfl
    · rw [if_neg h1]
      exact .throw

theorem reads_getSignature : Reads getSignature l p fun _ q => q = p + SignatureLength :=
  reads_getArray.mono fun _ _ h => h.2.2

theorem reads_getPublicKey : Reads getPublicKey l p fun a q =>
    a = slice l p KeyLength ∧ a.length = KeyLength ∧ q = p + KeyLength :=
  reads_getArray

theorem reads_explicitGet {α : Type} {x : Validation α} :
    Reads (explicitGet x) l p fun a q => x = .ok a ∧ q = p := by
  intro a b' h
  obtain ⟨hx, hb⟩ := explicitGet_eq_ok.mp h
  dsimp only at hx hb
  rw [hb]
  exact ⟨rfl, hx, rfl⟩

/-- The script an optional array holds. -/
def scriptAt [ScriptReader] (l : ByteStr) (p : ℕ) : Option Script :=
  if byteAt l p = 1 then
    (ScriptReader.fromBytes (slice l (p + 3) (arrayLength l (p + 1)))).toOption
  else none

theorem reads_getScript [ScriptReader] :
    Reads getScript l p fun s q => s = scriptAt l p ∧ q = p + optionalArrayWidth l p := by
  have hoption : Reads Deser.parseByteArrayOptionWithLength l p fun a q =>
      (a = if byteAt l p = 1 then some (slice l (p + 3) (arrayLength l (p + 1))) else none) ∧
        q = p + optionalArrayWidth l p := by
    refine reads_get.bind ?_
    rintro flag _ ⟨rfl, rfl⟩
    unfold optionalArrayWidth
    by_cases h1 : byteAt l p = 1
    · rw [if_pos h1, if_pos h1, if_pos h1]
      refine reads_parseArrayWithLength.map ?_
      rintro a q ⟨rfl, -, rfl⟩
      exact ⟨rfl, Nat.add_assoc p 1 _⟩
    · rw [if_neg h1, if_neg h1, if_neg h1]
      exact .pure ⟨rfl, rfl⟩
  refine hoption.bind ?_
  rintro _ _ ⟨rfl, rfl⟩
  unfold scriptAt
  by_cases h1 : byteAt l p = 1
  · rw [if_pos h1, if_pos h1]
    dsimp only
    cases hs : ScriptReader.fromBytes (slice l (p + 3) (arrayLength l (p + 1))) with
    | error e => exact .throw
    | ok s => exact .pure ⟨rfl, rfl⟩
  · rw [if_neg h1, if_neg h1]
    exact .pure ⟨rfl, rfl⟩

/-! ## 3. Recipients -/

section
variable [Crypto]

theorem reads_getAddress : Reads getAddress l p fun a q =>
    a.bytes = slice l p Address.AddressLength ∧ q = p + Address.AddressLength := by
  refine reads_getArray.bind ?_
  rintro bytes _ ⟨rfl, -, rfl⟩
  refine reads_explicitGet.mono ?_
  rintro a q ⟨ha, rfl⟩
  exact ⟨Address.fromBytes_bytes ha, rfl⟩

/-- Four bytes stand before the name of an alias. -/
theorem Alias.length_of_fromBytes {bytes : ByteStr} {a : Alias}
    (h : Alias.fromBytes bytes = .ok a) : 4 ≤ bytes.length := by
  unfold Alias.fromBytes at h
  split at h
  · simp
  · simp at h

theorem reads_getAlias : Reads getAlias l p fun _ q => q = p + arrayWidth l p := by
  refine reads_parseArrayWithLength.bind ?_
  rintro bytes _ ⟨-, -, rfl⟩
  exact reads_explicitGet.mono fun _ _ h => h.2

/-- Whether a place holds this address. -/
def addressStandsAt (l : ByteStr) (p : ℕ) (a : Address) : Prop :=
  byteAt l p = Address.AddressVersion ∧ slice l p Address.AddressLength = a.bytes

theorem reads_getAddressOrAlias : Reads getAddressOrAlias l p fun a q =>
    (∀ address, a = .address address ↔ addressStandsAt l p address) ∧
      q = p + recipientWidth l p := by
  refine reads_peek.bind ?_
  rintro prefix_ q ⟨rfl, rfl⟩
  unfold recipientWidth addressStandsAt
  rw [Nat.add_zero]
  by_cases h1 : byteAt l q = Address.AddressVersion
  · rw [if_pos h1, if_pos h1]
    refine reads_getAddress.map ?_
    rintro a _ ⟨ha, rfl⟩
    refine ⟨fun address => ?_, rfl⟩
    rw [AddressOrAlias.address.injEq, ← ha]
    constructor
    · rintro rfl
      exact ⟨h1, rfl⟩
    · rintro ⟨-, hbytes⟩
      cases a
      cases address
      exact congrArg Address.mk hbytes
  · rw [if_neg h1, if_neg h1]
    by_cases h2 : byteAt l q = Alias.AddressVersion
    · rw [if_pos h2]
      refine reads_peekShort.bind ?_
      rintro length _ ⟨rfl, rfl⟩
      refine reads_getByteArray.bind ?_
      rintro bytes _ ⟨-, -, hlen, rfl⟩
      refine reads_explicitGet.map ?_
      rintro a _ ⟨ha, rfl⟩
      refine ⟨fun address => ?_, ?_⟩
      · simp [h1]
      · -- a negative length leaves fewer bytes than an alias has before its name
        have hfour := Alias.length_of_fromBytes ha
        unfold arrayWidth arrayLength
        omega
    · rw [if_neg h2]
      exact .throw

theorem reads_AddressOrAlias_read :
    Reads AddressOrAlias.read l p fun _ q => q = p + recipientWidth l p := by
  refine reads_peek.bind ?_
  rintro version q ⟨rfl, rfl⟩
  unfold recipientWidth
  rw [Nat.add_zero]
  by_cases h1 : byteAt l q = Address.AddressVersion
  · rw [if_pos h1, if_pos h1]
    exact reads_getAddress.map fun _ _ h => h.2
  · rw [if_neg h1, if_neg h1]
    by_cases h2 : byteAt l q = Alias.AddressVersion
    · rw [if_pos h2]
      refine reads_getArray.bind ?_
      rintro header _ ⟨-, -, rfl⟩
      refine reads_parseArrayWithLength.bind ?_
      rintro aliasBytes _ ⟨-, -, rfl⟩
      refine reads_explicitGet.map ?_
      rintro a _ ⟨-, rfl⟩
      exact Nat.add_assoc q 2 _
    · rw [if_neg h2]
      exact .throw

end

/-! ## 4. Proofs -/

theorem reads_getProofs : Reads getProofs l p fun proofs _ =>
    proofs.proofs.map List.length = (arrayPlaces l (p + 1)).map (arrayLength l) ∧
      Proofs.validate proofs.proofs = .ok () := by
  refine reads_get.bind ?_
  rintro version _ ⟨-, rfl⟩
  refine reads_require.bind ?_
  rintro _ _ ⟨-, rfl⟩
  refine reads_parseArrays.bind ?_
  rintro proofs _ ⟨-, hlen, rfl⟩
  refine reads_explicitGet.bind ?_
  rintro ⟨⟩ _ ⟨hvalid, rfl⟩
  intro a b' h
  cases h
  exact ⟨rfl, hlen, hvalid⟩

/-! ## 5. Calls

A call has no width told by its first bytes. Its reader stays in the array, and that is
all that is needed. -/

namespace Serde

theorem stays_getBytes : Stays getBytes :=
  .bind .getInt fun _ => .bind .getThe fun _ => .bind (.require _ _) fun _ => .getByteArray _

theorem stays_getString : Stays getString := stays_getBytes.map

theorem stays_getFunctionHeader : Stays getFunctionHeader :=
  .bind .get fun _ => .ite Stays.getShort.map (.ite stays_getString.map (.throw _))

theorem stays_readCall {expr : Reader CallArg} (h : Stays expr) : Stays (readCall expr) := by
  refine stays_getFunctionHeader.bind fun header => ?_
  refine Stays.getInt.bind fun argc => Stays.getThe.bind fun buf => ?_
  refine (Stays.require _ _).bind fun _ => ?_
  exact (h.fill _).bind fun args => .pure _

theorem stays_readDeclaration {expr : Reader CallArg} (h : Stays expr) (kind : Byte) :
    Stays (readDeclaration expr kind) := by
  refine .ite ?_ (.ite ?_ (.throw _))
  · exact stays_getString.bind fun name => h.bind fun body => .pure _
  · refine stays_getString.bind fun name => ?_
    refine Stays.getInt.bind fun argc => Stays.getThe.bind fun buf => ?_
    refine (Stays.require _ _).bind fun _ => ?_
    exact (stays_getString.fill _).bind fun args => h.bind fun body => .pure _

theorem stays_desAux (fuel : ℕ) : Stays (desAux fuel) := by
  induction fuel with
  | zero => exact .throw _
  | succ fuel ih =>
    refine Stays.get.bind fun tag => ?_
    refine .ite Stays.getLong.map ?_
    refine .ite (stays_getBytes.bind fun v => (Stays.require _ _).bind fun _ => .pure _) ?_
    refine .ite (stays_getString.bind fun v => (Stays.require _ _).bind fun _ => .pure _) ?_
    refine .ite ((ih.fill 3).bind fun parts => .pure _) ?_
    refine .ite (stays_getString.bind fun name => (ih.fill 2).bind fun parts => .pure _) ?_
    refine .ite (stays_getString.bind fun key => .pure _) ?_
    refine .ite (.pure _) (.ite (.pure _) ?_)
    refine .ite (ih.bind fun obj => stays_getString.bind fun field => .pure _) ?_
    refine .ite (stays_readCall ih).map (.ite ?_ (.throw _))
    refine Stays.get.bind fun kind => (stays_readDeclaration ih kind).bind fun dec => ?_
    exact ih.bind fun body => .pure _

theorem stays_deserializeCall : Stays deserializeCall := by
  refine Stays.getThe.bind fun buf => (Stays.peek 0).bind fun tag => .ite ?_ ?_
  · exact Stays.get.bind fun _ => stays_readCall (stays_desAux _)
  · exact (stays_desAux _).bind fun _ => .throw _

end Serde

end WavesNode
