/-
What the transaction parsers read from a buffer: `ByteBufferOps`, `Deser`, and the
readers of addresses, proofs, data entries, scripts and calls.

A `Left` that the source turns into an exception (`explicitGet`) is a failure of the
reader. The script reader is part of the language and stays a field of
`ScriptReader`; the reader of calls (`Serde`) is written out as far as a call needs
it, any argument that is not a literal being kept in its serialized form.
-/
import WavesNode.ByteBuffer
import WavesNode.TxValidationError

set_option autoImplicit false

namespace WavesNode

open ByteBuffer

/-- `ScriptReader.fromBytes`. -/
class ScriptReader where
  fromBytes : ByteStr → Except String Script

/-! ## 1. Text -/

/-- Whether a byte continues a character. -/
def isContinuation (x : Byte) : Bool := 128 ≤ x.toUInt8.toNat && x.toUInt8.toNat < 192

/-- The character that starts a byte string in UTF-8, with its width. A malformed start
stands for the replacement character. -/
def decodeChar (b : ByteStr) : Char × ℕ :=
  let at_ (i : ℕ) : ℕ := (b.getD i 0).toUInt8.toNat
  let cont (i : ℕ) : Bool := i < b.length && isContinuation (b.getD i 0)
  let b0 := at_ 0
  let replacement := Char.ofNat 0xFFFD
  if b0 < 0x80 then (Char.ofNat b0, 1)
  else if 0xC2 ≤ b0 ∧ b0 < 0xE0 then
    if cont 1 then (Char.ofNat ((b0 - 0xC0) * 64 + (at_ 1 - 128)), 2) else (replacement, 1)
  else if 0xE0 ≤ b0 ∧ b0 < 0xF0 then
    -- no overlong form, no surrogate
    if !(cont 1) || (b0 = 0xE0 && at_ 1 < 0xA0) || (b0 = 0xED && 0xA0 ≤ at_ 1) then (replacement, 1)
    else if !(cont 2) then (replacement, 2)
    else (Char.ofNat (((b0 - 0xE0) * 64 + (at_ 1 - 128)) * 64 + (at_ 2 - 128)), 3)
  else if 0xF0 ≤ b0 ∧ b0 < 0xF5 then
    if !(cont 1) || (b0 = 0xF0 && at_ 1 < 0x90) || (b0 = 0xF4 && 0x90 ≤ at_ 1) then (replacement, 1)
    else if !(cont 2) then (replacement, 2)
    else if !(cont 3) then (replacement, 3)
    else (Char.ofNat ((((b0 - 0xF0) * 64 + (at_ 1 - 128)) * 64 + (at_ 2 - 128)) * 64
      + (at_ 3 - 128)), 4)
  else (replacement, 1)

/-- The characters of a byte string; every one takes at least a byte. -/
def decodeChars : (fuel : ℕ) → ByteStr → List Char
  | 0, _ => []
  | _ + 1, [] => []
  | fuel + 1, b => (decodeChar b).1 :: decodeChars fuel (b.drop (decodeChar b).2)

/-- `new String(bytes, UTF_8)`. -/
def decodeUtf8 (b : ByteStr) : String := String.ofList (decodeChars b.length b)

/-! ## 2. `ByteBufferOps` and `Deser` -/

section
variable {α : Type}

/-- `explicitGet`: a `Left` is thrown. -/
def explicitGet (x : Validation α) : Reader α :=
  match x with
  | .ok a => pure a
  | .error (.error _) => throw "ValidationError"
  | .error (.thrown m) => throw m

theorem explicitGet_eq_ok {x : Validation α} {b : ByteBuffer} {r : α × ByteBuffer} :
    explicitGet x b = .ok r ↔ x = .ok r.1 ∧ r.2 = b := by
  rcases x with (e | m) | a
  · simp [explicitGet]
  · simp [explicitGet]
  · rw [explicitGet, pure_eq_ok, Prod.ext_iff, Except.ok.injEq, eq_comm (a := a)]

end

namespace Deser

/-- `Deser.parseArrayWithLength` of a buffer, and `getByteArrayWithLength`. -/
def parseArrayWithLength : Reader ByteStr := do
  let length ← getShort
  require (0 ≤ length) "Array length should be non-negative"
  getByteArray length

def parseByteArrayOptionWithLength : Reader (Option ByteStr) := do
  let flag ← ByteBuffer.get
  if flag = 1 then some <$> parseArrayWithLength else pure none

def parseArrays : Reader (List ByteStr) := do
  let arraysCount ← getShort
  require (0 ≤ arraysCount) "Arrays count should be non-negative"
  let buf ← getThe ByteBuffer
  require (arraysCount ≤ buf.remaining / 2) "Bytes can't contain so many arrays"
  fill parseArrayWithLength arraysCount.toNat

end Deser

def AssetIdLength : ℕ := 32
def KeyLength : ℕ := 32
def SignatureLength : ℕ := 64
def DigestLength : ℕ := 32

def getIssuedAsset : Reader IssuedAsset := IssuedAsset.mk <$> getArray AssetIdLength

def getAsset : Reader Asset := do
  let prefix_ ← ByteBuffer.get
  if prefix_ = 0 then pure .Waves
  else if prefix_ = 1 then .issued <$> getIssuedAsset
  else throw s!"Invalid asset id prefix: {prefix_}"

def getBoolean : Reader Bool := do
  let b ← ByteBuffer.get
  if b = 0 then pure false else if b = 1 then pure true else throw s!"Invalid boolean value: {b}"

def getSignature : Reader ByteStr := getArray SignatureLength

def getPublicKey : Reader PublicKey := getArray KeyLength

section
variable [Crypto]

def getAddress : Reader Address := do
  let bytes ← getArray Address.AddressLength
  explicitGet (Address.fromBytes bytes)

/-- `Alias.fromBytes`: the version, the chain and two length bytes that are not read. -/
def Alias.fromBytes (bytes : ByteStr) : Validation Alias :=
  match bytes with
  | version :: chainId :: _ :: _ :: rest =>
    if version = Alias.AddressVersion then Alias.createWithChainId (decodeUtf8 rest) chainId
    else .fail (.GenericError "Bad alias bytes")
  | _ => .fail (.GenericError "Bad alias bytes")

def getAlias : Reader Alias := do
  let bytes ← Deser.parseArrayWithLength
  explicitGet (Alias.fromBytes bytes)

def getAddressOrAlias : Reader AddressOrAlias := do
  let prefix_ ← peek 0
  if prefix_ = Address.AddressVersion then .address <$> getAddress
  else if prefix_ = Alias.AddressVersion then do
    let length ← peekShort 2
    let bytes ← getByteArray (length + 4)
    .alias <$> explicitGet (Alias.fromBytes bytes)
  else throw s!"Invalid address or alias prefix: {prefix_}"

/-- `AddressOrAlias.fromBytes(buf)`, the reader of mass transfers. -/
def AddressOrAlias.read : Reader AddressOrAlias := do
  let version ← peek 0
  if version = Address.AddressVersion then .address <$> getAddress
  else if version = Alias.AddressVersion then do
    let header ← getArray 2
    let aliasBytes ← Deser.parseArrayWithLength
    .alias <$> explicitGet (Alias.createWithChainId (decodeUtf8 aliasBytes) (header.getD 1 0))
  else throw "Unknown address/alias version"

end

def getScript [ScriptReader] : Reader (Option Script) := do
  match ← Deser.parseByteArrayOptionWithLength with
  | none => pure none
  | some bytes =>
    match ScriptReader.fromBytes bytes with
    | .ok s => pure (some s)
    | .error e => throw e

/-! ## 3. Proofs -/

namespace Proofs

def MaxProofs : ℕ := 8
def MaxProofSize : ℕ := 64

def validate (proofs : List ByteStr) : Validation Unit := do
  .cond (proofs.length ≤ MaxProofs) (.TooManyProofs MaxProofs proofs.length)
  let biggestProofSize := (proofs.map List.length).foldr max 0
  .cond (biggestProofSize ≤ MaxProofSize) (.ToBigProof MaxProofSize biggestProofSize)

end Proofs

/-- `getProofs`: `Proofs.fromBytes` of all that remains; bytes after the last proof are
not read. -/
def getProofs : Reader Proofs := do
  let version ← ByteBuffer.get
  require (version = 1) "UsupportedProofVersion"
  let proofs ← Deser.parseArrays
  explicitGet (Proofs.validate proofs)
  let buf ← getThe ByteBuffer
  set (buf.advance buf.remaining)
  pure ⟨proofs⟩

/-! ## 4. Data entries -/

namespace DataEntry

/-- `parseValue`; a string entry keeps all its bytes, found by stepping back over the
key as it would be written again. -/
def parseValue (key : String) : Reader DataEntry := do
  let type ← ByteBuffer.get
  if type = 0 then do
    let v ← getLong
    pure ⟨key, .Integer v, none⟩
  else if type = 1 then do
    let v ← ByteBuffer.get
    pure ⟨key, .Boolean (v ≠ 0), none⟩
  else if type = 2 then do
    let v ← Deser.parseArrayWithLength
    pure ⟨key, .Binary v, none⟩
  else if type = 3 then do
    let start ← getThe ByteBuffer
    let blob ← Deser.parseArrayWithLength
    let stop ← getThe ByteBuffer
    let back := 3 + (utf8Bytes key).length
    require (back ≤ start.position) "newPosition >= 0"
    pure ⟨key, .String (decodeUtf8 blob),
      some (slice stop.array (start.position - back) (stop.position - (start.position - back)))⟩
  else throw s!"Unknown type {type}"

/-- `DataEntry.parse(buf)`. -/
def parse : Reader DataEntry := do
  let keyLength ← getShort
  let bytes ← getByteArray keyLength
  parseValue (decodeUtf8 bytes)

end DataEntry

/-! ## 5. Calls -/

namespace Serde

/-- The limit of `CONST_STRING` and `CONST_BYTESTR`. -/
def DATA_TX_BYTES_MAX : ℕ := 150 * 1024

def getBytes : Reader ByteStr := do
  let len ← getInt
  let buf ← getThe ByteBuffer
  require (0 ≤ len && len ≤ buf.array.length) s!"Invalid array size ({len})"
  getByteArray len

def getString : Reader String := decodeUtf8 <$> getBytes

def getFunctionHeader : Reader FunctionHeader := do
  let type ← ByteBuffer.get
  if type = 0 then (fun n => .Native (Int16.ofInt n)) <$> getShort
  else if type = 1 then .User <$> getString
  else throw s!"Unknown function header type: {type}"

/-- The rest of a call, after its tag. -/
def readCall (expr : Reader CallArg) : Reader FunctionCall := do
  let header ← getFunctionHeader
  let argc ← getInt
  let buf ← getThe ByteBuffer
  require (argc ≤ buf.remaining && 0 ≤ argc) "array of arguments too big."
  let args ← fill expr argc.toNat
  pure ⟨header, args⟩

/-- The rest of a declaration, after its kind, in serialized form. -/
def readDeclaration (expr : Reader CallArg) (kind : Byte) : Reader ByteStr := do
  if kind = 0 then do
    let name ← getString
    let body ← expr
    pure (0 :: writeString (utf8Bytes name) ++ serializeArg body)
  else if kind = 1 then do
    let name ← getString
    let argc ← getInt
    let buf ← getThe ByteBuffer
    require (argc ≤ buf.remaining / 2 && 0 ≤ argc) "array of arguments names too big."
    let args ← fill getString argc.toNat
    let body ← expr
    pure (1 :: writeString (utf8Bytes name) ++ Ints.toByteArray args.length ++
      (args.map fun a => writeString (utf8Bytes a)).flatten ++ serializeArg body)
  else throw "MatchError"

/-- `desAux`, an expression; it reads at least a byte, so the bytes left are fuel
enough. -/
def desAux : (fuel : ℕ) → Reader CallArg
  | 0 => throw "BufferUnderflowException"
  | fuel + 1 => do
    let expr := desAux fuel
    let tag ← ByteBuffer.get
    if tag = 0 then .CONST_LONG <$> getLong
    else if tag = 1 then do
      let v ← getBytes
      require (v.length ≤ DATA_TX_BYTES_MAX) "ByteStr exceeds the limit"
      pure (.CONST_BYTESTR v)
    else if tag = 2 then do
      let v ← getString
      require ((utf8Bytes v).length ≤ DATA_TX_BYTES_MAX) "String exceeds the limit"
      pure (.CONST_STRING v)
    else if tag = 3 then do
      let parts ← fill expr 3
      pure (.other (3 :: (parts.map serializeArg).flatten))
    else if tag = 4 then do
      let name ← getString
      let parts ← fill expr 2
      pure (.other (4 :: writeString (utf8Bytes name) ++ (parts.map serializeArg).flatten))
    else if tag = 5 then do
      let key ← getString
      pure (.other (5 :: writeString (utf8Bytes key)))
    else if tag = 6 then pure (.CONST_BOOLEAN true)
    else if tag = 7 then pure (.CONST_BOOLEAN false)
    else if tag = 8 then do
      let obj ← expr
      let field ← getString
      pure (.other (8 :: serializeArg obj ++ writeString (utf8Bytes field)))
    else if tag = 9 then (fun f => .other (serialize f)) <$> readCall expr
    else if tag = 10 then do
      let kind ← ByteBuffer.get
      let dec ← readDeclaration expr kind
      let body ← expr
      pure (.other (10 :: dec ++ serializeArg body))
    else throw "MatchError"

/-- `Serde.deserialize(_).explicitGet().asInstanceOf[FUNCTION_CALL]`. -/
def deserializeCall : Reader FunctionCall := do
  let buf ← getThe ByteBuffer
  let tag ← peek 0
  if tag = 9 then do
    let _ ← ByteBuffer.get
    readCall (desAux buf.remaining)
  else do
    let _ ← desAux (buf.remaining + 1)
    throw "ClassCastException"

end Serde

end WavesNode
