/-
Keys, addresses, aliases and assets.

`ByteStr` is the immutable byte array of the node; a byte is a *signed* 8-bit word,
because version bytes are compared with `<` and a version of 200 is negative.

The two digests, the signature check and the chain id are the parts of the node's
environment that its own source does not define: they are the fields of `Crypto`.
Nothing is assumed of them here. An address is computed from a public key exactly
as `Address.fromPublicKey` lays its bytes out.
-/
import WavesNode.BigEndian
import WavesNode.FiniteMap

set_option autoImplicit false

namespace WavesNode

/-! ## 1. Byte strings and keys -/

/-- An immutable array of signed bytes. -/
abbrev ByteStr := List Byte

instance : LawfulBEq (List Byte) := List.instLawfulBEq

instance : Std.Total (fun x y : ByteStr => x ≤ y) := ⟨le_total⟩

/-- A public key is a tagged byte string. -/
abbrev PublicKey := ByteStr

/-- The digests, the signature check and the network the node runs on. -/
class Crypto where
  chainId : Byte
  fastHash : ByteStr → ByteStr
  secureHash : ByteStr → ByteStr
  verify : (signature message : ByteStr) → PublicKey → Bool
  isWeakPublicKey : PublicKey → Bool

/-- The bytes of a string in UTF-8. -/
def utf8Bytes (s : String) : ByteStr := s.toUTF8.toList.map UInt8.toInt8

/-- The base-58 digits of a number, least significant first. -/
def base58Digits : (fuel n : ℕ) → List Char
  | 0, _ => []
  | fuel + 1, n =>
    if n = 0 then []
    else
      "123456789ABCDEFGHJKLMNPQRSTUVWXYZabcdefghijkmnopqrstuvwxyz".toList.getD (n % 58) '1'
        :: base58Digits fuel (n / 58)

/-- `ByteStr.toString`: base 58, one leading `1` for each leading zero byte. -/
def ByteStr.stringRepr (b : ByteStr) : String :=
  String.ofList <|
    (b.takeWhile (· = 0)).map (fun _ => '1') ++
      (base58Digits (2 * b.length) (BigEndian.read b)).reverse

/-- `Deser.serializeArrayWithLength`: the array after its 16-bit length. The source
refuses an array whose length is not a positive 16-bit word. -/
def Deser.serializeArrayWithLength (b : ByteStr) : ByteStr := Shorts.toByteArray b.length ++ b

/-! ## 2. Addresses and aliases -/

/-- An account address, identified by its bytes. -/
structure Address where
  bytes : ByteStr
  deriving DecidableEq

namespace Address

def AddressVersion : Byte := 1
def ChecksumLength : ℕ := 4
def HashLength : ℕ := 20
def AddressLength : ℕ := 1 + 1 + HashLength + ChecksumLength

def stringRepr (a : Address) : String := ByteStr.stringRepr a.bytes

section
variable [Crypto]

def calcCheckSum (withoutChecksum : ByteStr) : ByteStr :=
  (Crypto.secureHash withoutChecksum).take ChecksumLength

/-- Version, chain id, twenty bytes of the key's digest, and a checksum of these. -/
def fromPublicKey (publicKey : PublicKey) : Address :=
  let withoutChecksum :=
    AddressVersion :: Crypto.chainId :: (Crypto.secureHash publicKey).take HashLength
  ⟨withoutChecksum ++ calcCheckSum withoutChecksum⟩

end

end Address

/-- The address of a public key. -/
def PublicKey.toAddress [Crypto] (pk : PublicKey) : Address := Address.fromPublicKey pk

/-- A human-readable name for an address on one chain. -/
structure Alias where
  chainId : Byte
  name : String
  deriving DecidableEq

namespace Alias

def AddressVersion : Byte := 2
def MinLength : ℕ := 4
def MaxLength : ℕ := 30
def AliasAlphabet : String := "-.0123456789@_abcdefghijklmnopqrstuvwxyz"

def bytes (a : Alias) : ByteStr :=
  AddressVersion :: a.chainId :: Deser.serializeArrayWithLength (utf8Bytes a.name)

def stringRepr (a : Alias) : String :=
  s!"alias:{Char.ofNat a.chainId.toUInt8.toNat}:{a.name}"

def isValidAliasChar (c : Char) : Bool :=
  ('0' ≤ c ∧ c ≤ '9') ∨ ('a' ≤ c ∧ c ≤ 'z') ∨ c = '_' ∨ c = '@' ∨ c = '-' ∨ c = '.'

end Alias

/-- What a transaction names as a recipient. The two kinds differ in their first
byte, so equality of bytes is equality of this type. -/
inductive AddressOrAlias where
  | address (a : Address)
  | alias (a : Alias)
  deriving DecidableEq

namespace AddressOrAlias

def bytes : AddressOrAlias → ByteStr
  | .address a => a.bytes
  | .alias a => a.bytes

def stringRepr : AddressOrAlias → String
  | .address a => a.stringRepr
  | .alias a => a.stringRepr

end AddressOrAlias

/-! ## 3. Assets -/

/-- An asset that some transaction issued. -/
structure IssuedAsset where
  id : ByteStr
  deriving DecidableEq

/-- The native token, or an issued one. -/
inductive Asset where
  | Waves
  | issued (asset : IssuedAsset)
  deriving DecidableEq

namespace Asset

def compatId : Asset → Option ByteStr
  | Waves => none
  | issued a => some a.id

def fromCompatId : Option ByteStr → Asset
  | none => Waves
  | some id => issued ⟨id⟩

def maybeBase58Repr : Asset → Option String
  | Waves => none
  | issued a => some (ByteStr.stringRepr a.id)

/-- The issued asset, if it is one: `collect { case a: IssuedAsset => a }`. -/
def issued? : Asset → Option IssuedAsset
  | Waves => none
  | issued a => some a

@[simp] theorem issued?_eq_some {a : Asset} {i : IssuedAsset} :
    a.issued? = some i ↔ a = issued i := by
  cases a <;> simp [issued?]

end Asset

/-- The two sides of a traded pair. -/
structure AssetPair where
  amountAsset : Asset
  priceAsset : Asset
  deriving DecidableEq

end WavesNode
