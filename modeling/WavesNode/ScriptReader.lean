/-
Scripts as bytes.

A script is a header, a body and four bytes of a digest. The header is a version alone, for an
expression, or a zero, a kind of content and a version; the body is an expression or a
contract. What comes of it is an expression script, or a contract script whose own bytes must
not be too many, and so a contract is written again as soon as it is read.
-/
import WavesNode.ContractSpelling

set_option autoImplicit false

namespace WavesNode

namespace Lang

open ByteBuffer

/-! ## 1. Scripts -/

inductive ContentType where
  | Expression
  | DApp
  | Library
  deriving DecidableEq

def ContentType.id : ContentType → ℕ
  | Expression => 1
  | DApp => 2
  | Library => 3

def ContentType.all : List ContentType := [Expression, DApp, Library]

def StdLibVersion.all : List StdLibVersion := [.V1, .V2, .V3, .V4]

/-- `idMap`, looked up. -/
def idMap {V : Type} (all : List V) (id : V → ℕ) (b : Byte) : Option V :=
  all.find? fun v => (id v : ℤ) = b.toInt

/-- `ExprScriptImpl`, `ContractScriptImpl`. -/
inductive Script [DAppMetaSerializer] where
  | ExprScript (stdLibVersion : StdLibVersion) (expr : EXPR)
  | ContractScript (stdLibVersion : StdLibVersion) (expr : DApp)

def MaxContractSizeInBytes : ℕ := 32 * 1024

section

variable [Crypto]

def checksum (arr : ByteStr) : ByteStr := (Crypto.secureHash arr).take 4

/-- The bytes of a header and a body, with the digest after them. -/
def withChecksum (s : ByteStr) : ByteStr := s ++ checksum s

def serializeExpression (expr : EXPR) (stdLibVersion : StdLibVersion) : Except String ByteStr := do
  let written ← Serde.serialize expr
  .ok (withChecksum ([Int8.ofNat stdLibVersion.id] ++ written))

variable [DAppMetaSerializer]

def serializeContract (c : DApp) (stdLibVersion : StdLibVersion) : Except String ByteStr := do
  let written ← ContractSerDe.serialize c
  .ok (withChecksum ([0, Int8.ofNat ContentType.DApp.id, Int8.ofNat stdLibVersion.id] ++ written))

/-- `bytes`, which a script computes when it is asked. -/
def Script.bytes : Script → Except String ByteStr
  | .ExprScript stdLibVersion expr => serializeExpression expr stdLibVersion
  | .ContractScript stdLibVersion expr => serializeContract expr stdLibVersion

/-- `ContractScript.apply`: the bytes are asked for, and a `Left` in them is thrown. -/
def ContractScript.apply (version : StdLibVersion) (contract : DApp) : Except Failure Script := do
  let bs ← (Script.ContractScript version contract).bytes.mapError .thrown
  if bs.length ≤ MaxContractSizeInBytes then .ok (.ContractScript version contract)
  else .error (.left s!"Script is too large: {bs.length} bytes > {MaxContractSizeInBytes} bytes")

end

namespace ScriptReader

/-! ## 2. Reading -/

def checksumLength : ℕ := 4

def dropRight (bytes : ByteStr) (n : ℕ) : ByteStr := bytes.take (bytes.length - n)

def takeRight (bytes : ByteStr) (n : ℕ) : ByteStr := bytes.drop (bytes.length - n)

/-- The kind, the version and where the body begins. -/
def header (bytes : ByteStr) (versionByte : Byte) :
    Except Failure (ContentType × StdLibVersion × ℕ) :=
  if versionByte = 0 then
    if bytes.length ≤ 2 then .error (.left s!"Illegal length of script: {bytes.length}")
    else
      match idMap ContentType.all ContentType.id (byteAt bytes 1) with
      | none => .error (.left s!"Invalid content type of script: {(byteAt bytes 1).toInt}")
      | some contentType =>
        match idMap StdLibVersion.all StdLibVersion.id (byteAt bytes 2) with
        | none => .error (.left s!"Invalid version of script: {(byteAt bytes 2).toInt}")
        | some stdLibVersion => .ok (contentType, stdLibVersion, 3)
  else
    match idMap StdLibVersion.all StdLibVersion.id versionByte with
    | none => .error (.left s!"Invalid version of script: {versionByte.toInt}")
    | some stdLibVersion => .ok (.Expression, stdLibVersion, 1)

/-- The body after a header of `offset` bytes. -/
def scriptBytes (bytes : ByteStr) (offset : ℕ) : ByteStr :=
  dropRight (bytes.drop offset) checksumLength

section

variable [DAppMetaSerializer] [Crypto]

/-- An expression script or a contract script, from its body. -/
def parse (scriptType : ContentType) (stdLibVersion : StdLibVersion) (body : ByteStr) :
    Except Failure Script :=
  match scriptType with
  | .DApp => do
    let dapp ← ContractSerDe.deserialize body
    ContractScript.apply stdLibVersion dapp
  | .Expression | .Library => do
    let expr ← (Serde.deserialize body).mapError .left
    .ok (.ExprScript stdLibVersion expr.1)

/-- `fromBytes`. -/
def fromBytes (bytes : ByteStr) : Except Failure Script := do
  let checkSum := takeRight bytes checksumLength
  let computedCheckSum := (Crypto.secureHash (dropRight bytes checksumLength)).take checksumLength
  let versionByte ←
    match bytes with
    | [] => .error (.left "Can't parse empty script bytes")
    | versionByte :: _ => .ok versionByte
  let (scriptType, stdLibVersion, offset) ← header bytes versionByte
  if checkSum = computedCheckSum then
    parse scriptType stdLibVersion (scriptBytes bytes offset)
  else .error (.left "Invalid checksum")

/-! ## 3. What is thrown -/

omit [Crypto] in
/-- The body of a contract that can be read where nothing guards the reading, and whose
metadata, if all of it is decoded, can be written again. -/
def BodyReadable (body : ByteStr) : Prop :=
  ContractSerDe.ContractReadable body ∧
    ∀ m b, ContractSerDe.deserializeMeta ⟨body, 4⟩ = .ok (m, b) →
      (∃ c, ContractSerDe.deserialize body = .ok c) →
        (DAppMetaSerializer.toByteArray m).length ≤ ContractLimits.MaxContractMetaSizeInBytes

/-- A script whose body can be read, if it is a contract under a valid header and digest. -/
def ScriptReadable (bytes : ByteStr) : Prop :=
  byteAt bytes 0 = 0 → idMap ContentType.all ContentType.id (byteAt bytes 1) = some .DApp →
  (idMap StdLibVersion.all StdLibVersion.id (byteAt bytes 2)).isSome →
  takeRight bytes checksumLength = checksum (dropRight bytes checksumLength) →
    BodyReadable (scriptBytes bytes 3)

omit [Crypto] in
/-- A contract that is decoded: its metadata stand after the version. -/
theorem deserializeMeta_of_deserialize {arr : ByteStr} {c : DApp}
    (h : ContractSerDe.deserialize arr = .ok c) :
    ∃ b, ContractSerDe.deserializeMeta ⟨arr, 4⟩ = .ok (c.meta_, b) := by
  rw [ContractSerDe.deserialize] at h
  rcases hrun : ContractSerDe.deserializeDApp ⟨arr, 0⟩ with e | ⟨c', b⟩
  · rw [hrun] at h
    cases h
  · rw [hrun] at h
    cases h
    obtain ⟨version, b₁, hversion, hrun⟩ := EitherReader.bind_eq_ok.mp hrun
    obtain ⟨-, hversion⟩ := getInt_eq_ok.mp (tryEi_eq_ok.mp hversion)
    obtain ⟨-, rfl⟩ := Prod.mk.inj hversion
    obtain ⟨m, b₂, hmeta, hrun⟩ := EitherReader.bind_eq_ok.mp hrun
    obtain ⟨decs, b₃, -, hrun⟩ := EitherReader.bind_eq_ok.mp hrun
    obtain ⟨funcs, b₄, -, hrun⟩ := EitherReader.bind_eq_ok.mp hrun
    obtain ⟨verifier, b₅, -, hrun⟩ := EitherReader.bind_eq_ok.mp hrun
    cases hrun
    exact ⟨b₂, hmeta⟩

omit [Crypto] in
/-- What is decoded as a contract is what the reader reads. -/
theorem deserialize_eq_ok {arr : ByteStr} {c : DApp} :
    ContractSerDe.deserialize arr = .ok c ↔
      ∃ b, ContractSerDe.readDApp false ⟨arr, 0⟩ = .ok (c, b) := by
  have hlike := ContractSerDe.like_deserializeDApp ⟨arr, 0⟩
  rw [ContractSerDe.deserialize]
  constructor
  · intro h
    rcases hrun : ContractSerDe.deserializeDApp ⟨arr, 0⟩ with e | ⟨c', b⟩
    · rw [hrun] at h
      cases h
    · rw [hrun] at h
      cases h
      exact ⟨b, (hlike _).mp hrun⟩
  · rintro ⟨b, h⟩
    rw [(hlike _).mpr h]
    rfl

omit [Crypto] in
/-- A contract that is decoded is written again exactly when its metadata are not too long. -/
theorem serialize_of_deserialize {arr : ByteStr} {c : DApp}
    (h : ContractSerDe.deserialize arr = .ok c) :
    (∃ w, ContractSerDe.serialize c = .ok w) ↔
      (DAppMetaSerializer.toByteArray c.meta_).length ≤ ContractLimits.MaxContractMetaSizeInBytes := by
  obtain ⟨b, h⟩ := deserialize_eq_ok.mp h
  obtain ⟨-, -, -, -, hwritten⟩ := ContractSerDe.reads_readDApp arr 0 c b h
  constructor
  · rintro ⟨w, hw⟩
    rw [ContractSerDe.serialize] at hw
    obtain ⟨u, hcheck, -⟩ := Except.bind_eq_ok.mp hw
    rw [ContractSerDe.checkMetaSize] at hcheck
    split_ifs at hcheck with hle
    exact_mod_cast hle
  · intro hsize
    obtain ⟨w, hw, -⟩ := hwritten hsize
    exact ⟨w, hw⟩

omit [DAppMetaSerializer] [Crypto] in
theorem throws_exceptBind {α β : Type} {x : Except Failure α} {f : α → Except Failure β} :
    Throws (x >>= f) ↔ Throws x ∨ ∃ a, x = .ok a ∧ Throws (f a) := by
  rcases x with e | a
  · constructor
    · rintro ⟨m, hm⟩
      cases hm
      exact .inl ⟨m, rfl⟩
    · rintro (⟨m, hm⟩ | ⟨a, ha, -⟩)
      · cases hm
        exact ⟨m, rfl⟩
      · cases ha
  · constructor
    · exact fun h => .inr ⟨a, rfl, h⟩
    · rintro (⟨m, hm⟩ | ⟨a', ha, h⟩)
      · cases hm
      · cases ha
        exact h

/-- A contract script throws when the contract cannot be written again. -/
theorem throws_contractScript {version : StdLibVersion} {c : DApp} :
    Throws (ContractScript.apply version c) ↔ ∀ w, ContractSerDe.serialize c ≠ .ok w := by
  rw [ContractScript.apply, Script.bytes, serializeContract, throws_exceptBind]
  rcases ContractSerDe.serialize c with e | w
  · refine iff_of_true (.inl ⟨e, rfl⟩) fun w hw => ?_
    cases hw
  · refine iff_of_false ?_ fun h => h w rfl
    rintro (⟨m, hm⟩ | ⟨bs, hbs, m, hm⟩)
    · cases hm
    · split_ifs at hm
      cases hm

theorem throws_parse {scriptType : ContentType} {version : StdLibVersion} {body : ByteStr} :
    Throws (parse scriptType version body) ↔ scriptType = .DApp ∧ ¬BodyReadable body := by
  have hexpression : ¬Throws ((Serde.deserialize body).mapError Failure.left >>= fun expr =>
      .ok (Script.ExprScript version expr.1)) := by
    rcases Serde.deserialize body with e | expr
    · rintro ⟨m, hm⟩
      cases hm
    · rintro ⟨m, hm⟩
      cases hm
  cases scriptType with
  | DApp =>
    rw [parse, throws_exceptBind, BodyReadable, ← ContractSerDe.not_throws_deserialize]
    constructor
    · rintro (h | ⟨c, hc, h⟩)
      · exact ⟨rfl, fun hreadable => hreadable.1 h⟩
      · refine ⟨rfl, fun hreadable => ?_⟩
        obtain ⟨b, hmeta⟩ := deserializeMeta_of_deserialize hc
        obtain ⟨w, hw⟩ := (serialize_of_deserialize hc).mpr (hreadable.2 _ b hmeta ⟨c, hc⟩)
        exact throws_contractScript.mp h w hw
    · rintro ⟨-, h⟩
      by_cases hthrows : Throws (ContractSerDe.deserialize body)
      · exact .inl hthrows
      · -- what was decoded is what the metadata are of
        have hlong : ¬∀ m b, ContractSerDe.deserializeMeta ⟨body, 4⟩ = .ok (m, b) →
            (∃ c, ContractSerDe.deserialize body = .ok c) →
              (DAppMetaSerializer.toByteArray m).length ≤
                ContractLimits.MaxContractMetaSizeInBytes := fun hall => h ⟨hthrows, hall⟩
        push Not at hlong
        obtain ⟨m, b, hmeta, ⟨c, hc⟩, hlong⟩ := hlong
        obtain ⟨b', hmeta'⟩ := deserializeMeta_of_deserialize hc
        obtain ⟨rfl, -⟩ := Prod.mk.inj (Except.ok.inj (hmeta.symm.trans hmeta'))
        refine .inr ⟨c, hc, throws_contractScript.mpr fun w hw => ?_⟩
        have hsize := (serialize_of_deserialize hc).mp ⟨w, hw⟩
        omega
  | Expression => exact iff_of_false hexpression fun h => by cases h.1
  | Library => exact iff_of_false hexpression fun h => by cases h.1

omit [DAppMetaSerializer] [Crypto] in
theorem not_throws_header {bytes : ByteStr} {versionByte : Byte} :
    ¬Throws (header bytes versionByte) := by
  rintro ⟨m, hm⟩
  rw [header] at hm
  split at hm
  · split at hm
    · cases hm
    · split at hm
      · cases hm
      · split at hm
        · cases hm
        · cases hm
  · split at hm
    · cases hm
    · cases hm

omit [DAppMetaSerializer] [Crypto] in
/-- The two headers. -/
theorem header_eq_ok {bytes : ByteStr} {versionByte : Byte} {scriptType : ContentType}
    {version : StdLibVersion} {offset : ℕ} :
    header bytes versionByte = .ok (scriptType, version, offset) ↔
      (versionByte = 0 ∧ 2 < bytes.length ∧
        idMap ContentType.all ContentType.id (byteAt bytes 1) = some scriptType ∧
        idMap StdLibVersion.all StdLibVersion.id (byteAt bytes 2) = some version ∧ offset = 3) ∨
      (versionByte ≠ 0 ∧ scriptType = .Expression ∧
        idMap StdLibVersion.all StdLibVersion.id versionByte = some version ∧ offset = 1) := by
  rw [header]
  by_cases hzero : versionByte = 0
  · rw [if_pos hzero]
    by_cases hshort : bytes.length ≤ 2
    · rw [if_pos hshort]
      refine iff_of_false (fun h => by cases h) ?_
      rintro (⟨-, hlong, -⟩ | ⟨hnonzero, -⟩)
      · omega
      · exact hnonzero hzero
    · rw [if_neg hshort]
      rcases idMap ContentType.all ContentType.id (byteAt bytes 1) with _ | contentType
      · refine iff_of_false (fun h => by cases h) ?_
        rintro (⟨-, -, htype, -⟩ | ⟨hnonzero, -⟩)
        · cases htype
        · exact hnonzero hzero
      · rcases idMap StdLibVersion.all StdLibVersion.id (byteAt bytes 2) with _ | version'
        · refine iff_of_false (fun h => by cases h) ?_
          rintro (⟨-, -, -, hversion, -⟩ | ⟨hnonzero, -⟩)
          · cases hversion
          · exact hnonzero hzero
        · constructor
          · rintro h
            cases h
            exact .inl ⟨hzero, by omega, rfl, rfl, rfl⟩
          · rintro (⟨-, -, htype, hversion, rfl⟩ | ⟨hnonzero, -⟩)
            · cases htype
              cases hversion
              rfl
            · exact absurd hzero hnonzero
  · rw [if_neg hzero]
    rcases idMap StdLibVersion.all StdLibVersion.id versionByte with _ | version'
    · refine iff_of_false (fun h => by cases h) ?_
      rintro (⟨h, -⟩ | ⟨-, -, hversion, -⟩)
      · exact hzero h
      · cases hversion
    · constructor
      · rintro h
        cases h
        exact .inr ⟨hzero, rfl, rfl, rfl⟩
      · rintro (⟨h, -⟩ | ⟨-, rfl, hversion, rfl⟩)
        · exact absurd h hzero
        · cases hversion
          rfl

omit [DAppMetaSerializer] [Crypto] in
/-- The header of a contract. -/
theorem header_dApp {bytes : ByteStr} {versionByte : Byte} {version : StdLibVersion} {offset : ℕ} :
    header bytes versionByte = .ok (.DApp, version, offset) ↔
      versionByte = 0 ∧ idMap ContentType.all ContentType.id (byteAt bytes 1) = some .DApp ∧
        idMap StdLibVersion.all StdLibVersion.id (byteAt bytes 2) = some version ∧
        offset = 3 := by
  rw [header_eq_ok]
  constructor
  · rintro (⟨hzero, -, htype, hversion, hoffset⟩ | ⟨-, htype, -⟩)
    · exact ⟨hzero, htype, hversion, hoffset⟩
    · cases htype
  · rintro ⟨hzero, htype, hversion, hoffset⟩
    refine .inl ⟨hzero, ?_, htype, hversion, hoffset⟩
    -- a byte that is not there is zero, and no version is
    by_contra hshort
    have hnone : byteAt bytes 2 = 0 := by
      rw [byteAt, List.getD_eq_getElem?_getD, List.getElem?_eq_none (by omega)]
      rfl
    rw [hnone] at hversion
    cases hversion

theorem fromBytes_cons (versionByte : Byte) (rest : ByteStr) :
    fromBytes (versionByte :: rest) = header (versionByte :: rest) versionByte >>= fun h =>
      if takeRight (versionByte :: rest) checksumLength =
          checksum (dropRight (versionByte :: rest) checksumLength) then
        parse h.1 h.2.1 (scriptBytes (versionByte :: rest) h.2.2)
      else .error (.left "Invalid checksum") := rfl

/-- **A script is decoded or refused, and nothing is thrown, exactly when it is readable.** -/
theorem not_throws_fromBytes (bytes : ByteStr) :
    ¬Throws (fromBytes bytes) ↔ ScriptReadable bytes := by
  cases bytes with
  | nil =>
    refine iff_of_true ?_ fun _ htype => ?_
    · rintro ⟨m, hm⟩
      cases hm
    · exact absurd htype (by decide)
  | cons versionByte rest =>
    rw [fromBytes_cons, throws_exceptBind, ScriptReadable]
    generalize hbytes : versionByte :: rest = bytes
    have hfirst : byteAt bytes 0 = versionByte := by
      rw [← hbytes]
      rfl
    rw [hfirst]
    constructor
    · intro h hzero htype hversion hchecksum
      obtain ⟨version, hversion⟩ := Option.isSome_iff_exists.mp hversion
      by_contra hbody
      refine h (.inr ⟨_, header_dApp.mpr ⟨hzero, htype, hversion, rfl⟩, ?_⟩)
      rw [if_pos hchecksum]
      exact throws_parse.mpr ⟨rfl, hbody⟩
    · rintro hreadable (h | ⟨⟨scriptType, version, offset⟩, hheader, h⟩)
      · exact not_throws_header h
      · by_cases hchecksum : takeRight bytes checksumLength =
            checksum (dropRight bytes checksumLength)
        · rw [if_pos hchecksum] at h
          obtain ⟨hdApp, hbody⟩ := throws_parse.mp h
          rw [show scriptType = .DApp from hdApp] at hheader
          obtain ⟨hzero, htype, hversion, hoffset⟩ := header_dApp.mp hheader
          dsimp only at hbody
          rw [hoffset] at hbody
          exact hbody (hreadable hzero htype (by rw [hversion]; rfl) hchecksum)
        · rw [if_neg hchecksum] at h
          obtain ⟨m, hm⟩ := h
          cases hm

end

/-! ## 4. Contracts without anything -/

/-- Metadata that say nothing are parsed from no bytes and written as none. -/
@[reducible] def emptyMeta : DAppMetaSerializer where
  DAppMeta := ByteStr
  parseFrom := .ok
  toByteArray := id

/-- A platform that knows the digests of a few scripts. -/
@[reducible] def knownDigests (known : List (ByteStr × ByteStr)) : Crypto where
  chainId := 0
  fastHash := id
  secureHash x := ((known.find? fun entry => entry.1 = x).map Prod.snd).getD (List.replicate 32 0)
  verify _ _ _ := false
  isWeakPublicKey _ := false

section

/-- A contract of the third version whose bytes stop where the declarations would begin. -/
def truncatedContract : ByteStr := [0, 2, 3] ++ List.replicate 8 0

local instance truncatedMeta : DAppMetaSerializer := emptyMeta

local instance truncatedDigests : Crypto :=
  knownDigests [(truncatedContract,
    BigEndian.write 32 0x8b569ed3071cf5ff170c0eba081c0b81f2cb33174b67c219970a4e81c100220b)]

end

end ScriptReader

end Lang

end WavesNode
