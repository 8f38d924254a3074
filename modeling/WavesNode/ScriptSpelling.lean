/-
Scripts that are spelled as they are written.

Two scripts with one meaning need not have the same bytes: an expression may stand after the
longer header, a contract may be followed by anything, and more (`ContractSpelling`). Exactly
the scripts that a strict reader reads to their end are the bytes of what they decode to, and
among these a script has one spelling.
-/
import WavesNode.ScriptReader

set_option autoImplicit false

namespace WavesNode

namespace Lang

open ByteBuffer

namespace ScriptReader

/-! ## 1. Bodies -/

/-- An expression to the end of its body, with well-formed strings. -/
def SpelledExpression (body : ByteStr) : Prop :=
  ∃ e, ContractSerDe.readExpr (ContractSerDe.readString true) ⟨body, 0⟩ =
    .ok (e, ⟨body, body.length⟩)

/-- A contract to the end of its body, read strictly. -/
def SpelledContract [DAppMetaSerializer] (body : ByteStr) : Prop :=
  ∃ c, ContractSerDe.readDApp true ⟨body, 0⟩ = .ok (c, ⟨body, body.length⟩)

/-- What was taken is all there is. -/
theorem takes_whole {α : Type} {r : Reader α} {body : ByteStr} {a : α} (h : Takes r body a) :
    r ⟨body, 0⟩ = .ok (a, ⟨body, body.length⟩) := by
  have hwhole := h [] []
  rwa [List.append_nil, List.nil_append, List.length_nil, Nat.zero_add] at hwhole

/-- What is spelled to the end is all there is. -/
theorem spells_whole {strict : Prop} {body w : ByteStr} (h : Spells strict body 0 body.length w)
    (hstrict : strict) : w = body := by
  have hslice := h.2 hstrict
  rwa [slice, List.drop_zero, Nat.sub_zero, List.take_length, eq_comm] at hslice

theorem spelledExpression_iff {body : ByteStr} {e : EXPR} {n : ℕ} (hsize : body.length < 2 ^ 31)
    (h : Serde.deserialize body = .ok (e, n)) :
    Serde.serialize e = .ok body ↔ SpelledExpression body := by
  constructor
  · intro hwritten
    rw [Serde.serialize] at hwritten
    obtain ⟨w, hw, hwritten⟩ := Except.bind_eq_ok.mp hwritten
    split_ifs at hwritten with hlt
    cases hwritten
    exact ⟨e, takes_whole (ContractSerDe.takes_readExpr true hw hlt)⟩
  · rintro ⟨e', he'⟩
    obtain ⟨-, w, hw, hspells⟩ := ContractSerDe.spelled_readExpr body 0 _ _ he'
    obtain rfl := spells_whole hspells rfl
    -- what is spelled is read by the node's reader as well
    have hrun := takes_whole (ContractSerDe.takes_readExpr false hw hsize)
    rw [ContractSerDe.readString_false] at hrun
    have hsame : e' = e := by
      rw [Serde.deserialize] at h
      have hdes : Serde.desAux WavesNode.Serde.getString (w.length + 1) ⟨w, 0⟩ =
          .ok (e', ⟨w, w.length⟩) := hrun
      rw [hdes] at h
      dsimp only at h
      split_ifs at h
      cases h
      rfl
    rw [Serde.serialize, ← hsame, hw]
    exact if_pos hsize

section

variable [DAppMetaSerializer]

/-- Where the metadata stand in what is written for a contract. -/
theorem serialize_eq_ok {c : DApp} {w : ByteStr} (h : ContractSerDe.serialize c = .ok w) :
    intAt w 4 = (DAppMetaSerializer.toByteArray c.meta_).length ∧
      slice w 8 (DAppMetaSerializer.toByteArray c.meta_).length =
        DAppMetaSerializer.toByteArray c.meta_ := by
  rw [ContractSerDe.serialize] at h
  obtain ⟨u, hcheck, h⟩ := Except.bind_eq_ok.mp h
  obtain ⟨decs, -, h⟩ := Except.bind_eq_ok.mp h
  obtain ⟨funcs, -, h⟩ := Except.bind_eq_ok.mp h
  obtain ⟨verifier, -, h⟩ := Except.bind_eq_ok.mp h
  cases h
  have hlimit : (DAppMetaSerializer.toByteArray c.meta_).length < 2 ^ 31 := by
    rw [ContractSerDe.checkMetaSize] at hcheck
    split_ifs at hcheck with hle
    unfold ContractLimits.MaxContractMetaSizeInBytes at hle
    omega
  generalize DAppMetaSerializer.toByteArray c.meta_ = tb at hlimit ⊢
  rw [Serde.writeBytes, List.append_assoc]
  constructor
  · have hint := takes_getInt hlimit (Ints.toByteArray 0) (tb ++ (decs ++ (funcs ++ verifier)))
    obtain ⟨-, hint⟩ := getInt_eq_ok.mp hint
    exact (Prod.mk.inj hint).1.symm
  · have hslice := slice_append (Ints.toByteArray 0 ++ Ints.toByteArray tb.length) tb
      (decs ++ (funcs ++ verifier))
    rwa [List.append_assoc] at hslice

theorem spelledContract_iff {body : ByteStr} {c : DApp} (hsize : body.length < 2 ^ 31)
    (h : ContractSerDe.deserialize body = .ok c) :
    ContractSerDe.serialize c = .ok body ↔ SpelledContract body := by
  obtain ⟨b, hread⟩ := deserialize_eq_ok.mp h
  obtain ⟨-, hnames, hparse, -, -⟩ := ContractSerDe.reads_readDApp body 0 c b hread
  constructor
  · intro hwritten
    -- the metadata were parsed from the bytes they are written as
    obtain ⟨hcount, hslice⟩ := serialize_eq_ok hwritten
    rw [Nat.zero_add, hcount, Int.toNat_natCast, hslice] at hparse
    exact ⟨c, takes_whole (ContractSerDe.takes_readDApp true hwritten hsize hparse hnames)⟩
  · rintro ⟨c', hc'⟩
    obtain ⟨-, hnames', -, hstrict, hwritten⟩ := ContractSerDe.reads_readDApp body 0 c' _ hc'
    obtain ⟨hlimit, hparse'⟩ := hstrict rfl
    obtain ⟨w, hw, hspells⟩ := hwritten hlimit
    obtain rfl := spells_whole hspells rfl
    have hrun := takes_whole (ContractSerDe.takes_readDApp false hw hsize hparse' hnames')
    obtain ⟨rfl, -⟩ := Prod.mk.inj (Except.ok.inj (hread.symm.trans hrun))
    exact hw

end

/-! ## 2. Headers -/

theorem idMap_eq_some {V : Type} {all : List V} {id : V → ℕ} {b : Byte} {v : V}
    (h : idMap all id b = some v) : b = Int8.ofNat (id v) := by
  have hid : (id v : ℤ) = b.toInt := by simpa using List.find?_some h
  rw [← Int8.ofInt_toInt b, ← hid]
  rfl

/-- A body that is not empty is what is left between its header and the digest. -/
theorem dropRight_eq {bytes : ByteStr} {offset : ℕ} (h : scriptBytes bytes offset ≠ []) :
    dropRight bytes checksumLength = bytes.take offset ++ scriptBytes bytes offset := by
  have hlong : offset + checksumLength < bytes.length := by
    by_contra hshort
    refine h ?_
    rw [scriptBytes, dropRight, List.length_drop, List.take_eq_nil_iff]
    exact .inl (by omega)
  rw [scriptBytes, dropRight, dropRight, List.length_drop]
  have hsize : bytes.length - checksumLength = offset + (bytes.length - offset - checksumLength) := by
    omega
  rw [hsize, List.take_add]

section

variable [Crypto]

/-- Two scripts with their digests are the same if the scripts are. -/
theorem withChecksum_eq (hdigest : ∀ x, checksumLength ≤ (Crypto.secureHash x).length)
    {s bytes : ByteStr}
    (h : takeRight bytes checksumLength = checksum (dropRight bytes checksumLength)) :
    withChecksum s = bytes ↔ s = dropRight bytes checksumLength := by
  have hbytes : withChecksum (dropRight bytes checksumLength) = bytes := by
    rw [withChecksum, ← h, dropRight, takeRight, List.take_append_drop]
  have hlength : ∀ x, (checksum x).length = checksumLength := by
    intro x
    have hx := hdigest x
    unfold checksumLength at hx ⊢
    rw [checksum, List.length_take, min_eq_left hx]
  constructor
  · intro hs
    rw [← hbytes] at hs
    exact (List.append_inj' hs (by rw [hlength, hlength])).1
  · rintro rfl
    exact hbytes

/-- Under the same header, if the bodies are. -/
theorem withChecksum_header_eq (hdigest : ∀ x, checksumLength ≤ (Crypto.secureHash x).length)
    {bytes head w : ByteStr} {offset : ℕ}
    (h : takeRight bytes checksumLength = checksum (dropRight bytes checksumLength))
    (hhead : bytes.take offset = head) (hbody : scriptBytes bytes offset ≠ []) :
    withChecksum (head ++ w) = bytes ↔ w = scriptBytes bytes offset := by
  rw [withChecksum_eq hdigest h, dropRight_eq hbody, hhead, List.append_right_inj]

end

/-! ## 3. Scripts -/

section

variable [DAppMetaSerializer]

/-- The bytes that the encoder writes: a version and an expression, or the longer header of a
contract and a contract, read strictly to the end. -/
def Canonical (bytes : ByteStr) : Prop :=
  if byteAt bytes 0 = 0 then
    byteAt bytes 1 = Int8.ofNat ContentType.DApp.id ∧ SpelledContract (scriptBytes bytes 3)
  else SpelledExpression (scriptBytes bytes 1)

variable [Crypto]

/-- What an accepted script is made of. -/
theorem fromBytes_eq_ok {bytes : ByteStr} {s : Script} (h : fromBytes bytes = .ok s) :
    ∃ scriptType version offset,
      header bytes (byteAt bytes 0) = .ok (scriptType, version, offset) ∧
      takeRight bytes checksumLength = checksum (dropRight bytes checksumLength) ∧
      parse scriptType version (scriptBytes bytes offset) = .ok s := by
  cases bytes with
  | nil => cases h
  | cons versionByte rest =>
    rw [fromBytes_cons] at h
    obtain ⟨⟨scriptType, version, offset⟩, hheader, h⟩ := Except.bind_eq_ok.mp h
    by_cases hchecksum : takeRight (versionByte :: rest) checksumLength =
        checksum (dropRight (versionByte :: rest) checksumLength)
    · rw [if_pos hchecksum] at h
      exact ⟨scriptType, version, offset, hheader, hchecksum, h⟩
    · rw [if_neg hchecksum] at h
      cases h

/-- An expression script comes of an expression that takes all of the body. -/
theorem parse_expression {scriptType : ContentType} {version : StdLibVersion} {body : ByteStr}
    {s : Script} (htype : scriptType ≠ .DApp) (h : parse scriptType version body = .ok s) :
    body ≠ [] ∧ ∃ e, Serde.deserialize body = .ok e ∧ s = .ExprScript version e.1 := by
  have hexpression : (Serde.deserialize body).mapError Failure.left >>= (fun expr =>
      .ok (Script.ExprScript version expr.1)) = .ok s := by
    cases scriptType with
    | DApp => exact absurd rfl htype
    | Expression => exact h
    | Library => exact h
  rcases hbody : Serde.deserialize body with m | e
  · rw [hbody] at hexpression
    cases hexpression
  · rw [hbody] at hexpression
    cases hexpression
    refine ⟨?_, e, rfl, rfl⟩
    rintro rfl
    cases hbody

/-- A contract script comes of a contract. -/
theorem parse_dApp {version : StdLibVersion} {body : ByteStr} {s : Script}
    (h : parse .DApp version body = .ok s) :
    body ≠ [] ∧ ∃ c, ContractSerDe.deserialize body = .ok c ∧ s = .ContractScript version c := by
  rw [parse] at h
  obtain ⟨c, hc, h⟩ := Except.bind_eq_ok.mp h
  rw [ContractScript.apply] at h
  obtain ⟨bs, -, h⟩ := Except.bind_eq_ok.mp h
  split_ifs at h
  cases h
  refine ⟨?_, c, hc, rfl⟩
  rintro rfl
  cases hc

omit [DAppMetaSerializer] [Crypto] in
theorem take_one {bytes : ByteStr} (h : byteAt bytes 0 ≠ 0) : bytes.take 1 = [byteAt bytes 0] := by
  cases bytes with
  | nil => exact absurd rfl h
  | cons x rest => rfl

omit [DAppMetaSerializer] [Crypto] in
theorem take_three {bytes : ByteStr} (h : 2 < bytes.length) :
    bytes.take 3 = [byteAt bytes 0, byteAt bytes 1, byteAt bytes 2] := by
  match bytes, h with
  | _ :: _ :: _ :: _, _ => rfl

/-- An expression is written under a version, which is not zero. -/
theorem bytes_exprScript_ne {bytes : ByteStr} {version : StdLibVersion} {e : EXPR}
    (h : byteAt bytes 0 = 0) : (Script.ExprScript version e).bytes ≠ .ok bytes := by
  intro hbytes
  rw [Script.bytes, serializeExpression] at hbytes
  obtain ⟨w, -, hbytes⟩ := Except.bind_eq_ok.mp hbytes
  cases hbytes
  cases version with
  | V1 => cases h
  | V2 => cases h
  | V3 => cases h
  | V4 => cases h

/-- An accepted script is the bytes of what it decodes to exactly when it is spelled as the
encoder writes. -/
theorem bytes_eq_iff (hdigest : ∀ x, checksumLength ≤ (Crypto.secureHash x).length)
    {bytes : ByteStr} {s : Script} (hsize : bytes.length < 2 ^ 31) (h : fromBytes bytes = .ok s) :
    s.bytes = .ok bytes ↔ Canonical bytes := by
  obtain ⟨scriptType, version, offset, hheader, hchecksum, hparse⟩ := fromBytes_eq_ok h
  have hbody : (scriptBytes bytes offset).length < 2 ^ 31 := by
    rw [scriptBytes, dropRight, List.length_take, List.length_drop]
    omega
  rw [Canonical]
  rcases header_eq_ok.mp hheader with ⟨hzero, hlong, htype, hversion, rfl⟩ |
    ⟨hnonzero, rfl, hversion, rfl⟩
  · rw [if_pos hzero]
    by_cases hdApp : scriptType = .DApp
    · -- the longer header of a contract
      rw [hdApp] at hparse htype
      obtain ⟨hnil, c, hc, rfl⟩ := parse_dApp hparse
      have htype := idMap_eq_some htype
      have hhead := take_three hlong
      rw [hzero, htype, idMap_eq_some hversion] at hhead
      rw [← spelledContract_iff hbody hc, Script.bytes, serializeContract, Except.bind_eq_ok]
      constructor
      · rintro ⟨w, hw, hbytes⟩
        obtain rfl := (withChecksum_header_eq hdigest hchecksum hhead hnil).mp
          (Except.ok.inj hbytes)
        exact ⟨htype, hw⟩
      · rintro ⟨-, hw⟩
        exact ⟨_, hw, congrArg Except.ok
          ((withChecksum_header_eq hdigest hchecksum hhead hnil).mpr rfl)⟩
    · -- an expression after the longer header is written after the shorter one
      obtain ⟨-, e, -, rfl⟩ := parse_expression hdApp hparse
      refine iff_of_false (bytes_exprScript_ne hzero) ?_
      rintro ⟨hother, -⟩
      rw [idMap_eq_some htype] at hother
      cases scriptType with
      | Expression => cases hother
      | DApp => exact hdApp rfl
      | Library => cases hother
  · rw [if_neg hnonzero]
    obtain ⟨hnil, e, he, rfl⟩ := parse_expression (by decide) hparse
    have hhead := take_one hnonzero
    rw [idMap_eq_some hversion] at hhead
    rw [← spelledExpression_iff hbody he, Script.bytes, serializeExpression, Except.bind_eq_ok]
    constructor
    · rintro ⟨w, hw, hbytes⟩
      obtain rfl := (withChecksum_header_eq hdigest hchecksum hhead hnil).mp
        (Except.ok.inj hbytes)
      exact hw
    · intro hw
      exact ⟨_, hw, congrArg Except.ok
        ((withChecksum_header_eq hdigest hchecksum hhead hnil).mpr rfl)⟩

/-- **Which scripts are canonical.** An accepted script is the bytes of what it decodes to
exactly when it is spelled as the encoder writes, and no two that are spelled so decode to the
same. -/
theorem bytes_fromBytes (hdigest : ∀ x, checksumLength ≤ (Crypto.secureHash x).length)
    {bytes : ByteStr} {s : Script} (hsize : bytes.length < 2 ^ 31) (h : fromBytes bytes = .ok s) :
    (s.bytes = .ok bytes ↔ Canonical bytes) ∧
      ∀ bytes', bytes'.length < 2 ^ 31 → fromBytes bytes' = .ok s → Canonical bytes →
        Canonical bytes' → bytes' = bytes := by
  refine ⟨bytes_eq_iff hdigest hsize h, fun bytes' hsize' h' hcanonical hcanonical' => ?_⟩
  have hbytes := (bytes_eq_iff hdigest hsize h).mpr hcanonical
  have hbytes' := (bytes_eq_iff hdigest hsize' h').mpr hcanonical'
  exact Except.ok.inj (hbytes'.symm.trans hbytes)

end

section

/-- A contract of the third version with nothing in it. -/
def emptyContract : ByteStr := [0, 2, 3] ++ List.replicate 20 0

def emptyContractDigests : List (ByteStr × ByteStr) :=
  [(emptyContract,
    BigEndian.write 32 0x4e223d6a5209645df010a6ead860b3a676322f07a46ed244db23e96dc19b9652),
   (emptyContract ++ [7],
    BigEndian.write 32 0x33e33b99e02aff56a52521a1fbd763bd667009214bcc698159df576876dff7b8)]

local instance emptyContractMeta : DAppMetaSerializer := emptyMeta

local instance emptyContractCrypto : Crypto := knownDigests emptyContractDigests

theorem length_emptyContractDigests (x : ByteStr) :
    checksumLength ≤ (Crypto.secureHash x).length := by
  change 4 ≤ (((emptyContractDigests.find? fun entry => entry.1 = x).map Prod.snd).getD
    (List.replicate 32 0)).length
  rcases hfind : emptyContractDigests.find? fun entry => entry.1 = x with _ | entry
  · rw [hfind]
    decide
  · -- either digest has thirty-two bytes
    have hmem : entry ∈ emptyContractDigests := List.mem_of_find?_eq_some hfind
    have hall : ∀ entry ∈ emptyContractDigests, 4 ≤ entry.2.length := by decide
    rw [hfind]
    exact hall entry hmem

theorem bytes_fromBytes_empty :
    ∃ s, fromBytes (withChecksum emptyContract) = .ok s ∧
      (s.bytes = .ok (withChecksum emptyContract) ↔ Canonical (withChecksum emptyContract)) ∧
      ∀ bytes', bytes'.length < 2 ^ 31 → fromBytes bytes' = .ok s →
        Canonical (withChecksum emptyContract) → Canonical bytes' →
          bytes' = withChecksum emptyContract :=
  ⟨_, rfl, bytes_fromBytes length_emptyContractDigests (by decide) rfl⟩

/-- A byte after the contract is ignored: the same script, and other bytes. -/
theorem fromBytes_trailingByte :
    ∃ s, fromBytes (withChecksum emptyContract) = .ok s ∧
      fromBytes (withChecksum (emptyContract ++ [7])) = .ok s ∧
      s.bytes ≠ .ok (withChecksum (emptyContract ++ [7])) := by
  refine ⟨_, rfl, rfl, ?_⟩
  intro h
  have hbytes : withChecksum emptyContract = withChecksum (emptyContract ++ [7]) := Except.ok.inj h
  revert hbytes
  decide

end

end ScriptReader

end Lang

end WavesNode
