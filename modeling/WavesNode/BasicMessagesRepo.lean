/-
The messages of the network.

Every kind of message has a code, a greatest length and a form as bytes. Modelled in full
are the kinds whose bytes are laid out here; of blocks and transactions the code and the
greatest length.

Addresses of peers are written as they come, four bytes or sixteen, and read as four each;
signatures are written one after another and read as sixty-four bytes each; the number of
them stands in front and is multiplied in thirty-two bits. For every kind it is settled
which messages are read back as what was sent (`Content.delivered_iff`), and which bytes are
those of a message (`Content.canonical_iff`).
-/
import Mathlib.Data.List.Forall2
import WavesNode.BigInteger
import WavesNode.ByteBufferOps
import WavesNode.MicroBlockSynchronizer

set_option autoImplicit false

namespace WavesNode

open ByteBuffer

/-! ## 1. The specs -/

structure MessageSpec where
  messageName : String
  messageCode : Byte
  maxLength : ℕ
  deriving DecidableEq

namespace BasicMessagesRepo

def GetPeersSpec : MessageSpec := ⟨"GetPeers", 1, 0⟩
def PeersSpec : MessageSpec := ⟨"Peers", 2, 4 + 1000 * (4 + 4)⟩
def GetSignaturesSpec : MessageSpec := ⟨"GetSignatures", 20, 4 + 200 * SignatureLength⟩
def SignaturesSpec : MessageSpec := ⟨"Signatures", 21, 4 + 200 * SignatureLength⟩
def GetBlockSpec : MessageSpec := ⟨"GetBlock", 22, SignatureLength⟩
def TransactionSpec : MessageSpec := ⟨"Transaction", 25, 150 * 1024⟩
def MaxTransactionsPerBlockVer3 : ℕ := 6000
def BlockSpec : MessageSpec :=
  ⟨"Block", 23, 271 + TransactionSpec.maxLength * MaxTransactionsPerBlockVer3⟩
def ScoreSpec : MessageSpec := ⟨"Score", 24, 64⟩
def MicroBlockInvSpec : MessageSpec := ⟨"MicroBlockInv", 26, 300⟩
def MicroBlockRequestSpec : MessageSpec := ⟨"MicroBlockRequest", 27, 500⟩
def MaxTransactionsPerMicroblock : ℕ := 500
def MicroBlockResponseSpec : MessageSpec :=
  ⟨"MicroBlockResponse", 28, 271 + TransactionSpec.maxLength * MaxTransactionsPerMicroblock⟩
def PBTransactionSpec : MessageSpec := ⟨"PBTransaction", 30, 150 * 1024⟩
def PBBlockSpec : MessageSpec :=
  ⟨"PBBlock", 29, 1024 + PBTransactionSpec.maxLength * MaxTransactionsPerBlockVer3⟩

def specs : List MessageSpec :=
  [GetPeersSpec, PeersSpec, GetSignaturesSpec, SignaturesSpec, GetBlockSpec, BlockSpec, ScoreSpec,
    TransactionSpec, MicroBlockInvSpec, MicroBlockRequestSpec, MicroBlockResponseSpec,
    PBBlockSpec, PBTransactionSpec]

def specsByCodes (code : Byte) : Option MessageSpec := specs.find? fun s => s.messageCode = code

/-- Every spec is found by its code. -/
theorem specsByCodes_messageCode : ∀ spec ∈ specs, specsByCodes spec.messageCode = some spec := by
  decide

theorem messageCode_of_specsByCodes {code : Byte} {spec : MessageSpec}
    (h : specsByCodes code = some spec) : spec.messageCode = code := by
  have hfound := List.find?_some h
  exact of_decide_eq_true hfound

end BasicMessagesRepo

open BasicMessagesRepo

/-! ## 2. What the messages say -/

/-- `InetAddress`: of the fourth version of the protocol or of the sixth. -/
structure InetAddress where
  address : ByteStr
  lengths : address.length = 4 ∨ address.length = 16
  deriving DecidableEq

def InetAddress.getByAddress (addr : ByteStr) : Except String InetAddress :=
  if h : addr.length = 4 ∨ addr.length = 16 then .ok ⟨addr, h⟩
  else .error "UnknownHostException: addr is of illegal length"

/-- `InetSocketAddress`: without an address where its host name was not resolved. -/
structure InetSocketAddress where
  address : Option InetAddress
  port : ℕ
  inRange : port ≤ 65535
  deriving DecidableEq

theorem toNat_le_of_range {port : ℤ} (h : 0 ≤ port ∧ port ≤ 65535) : port.toNat ≤ 65535 := by
  omega

def InetSocketAddress.of (addr : InetAddress) (port : ℤ) : Except String InetSocketAddress :=
  if h : 0 ≤ port ∧ port ≤ 65535 then .ok ⟨some addr, port.toNat, toNat_le_of_range h⟩
  else .error s!"IllegalArgumentException: port out of range:{port}"

/-- What is read of a message. -/
inductive Content
  | GetPeers
  | KnownPeers (peers : List InetSocketAddress)
  | GetSignatures (signatures : List ByteStr)
  | Signatures (signatures : List ByteStr)
  | GetBlock (signature : ByteStr)
  | Score (score : ℤ)
  | MicroBlockInv (inv : MicroBlockInv)
  | MicroBlockRequest (totalBlockSig : ByteStr)
  deriving DecidableEq

/-! ## 3. Their bytes -/

/-- `Ints.fromByteArray`, of four bytes. -/
def Ints.fromByteArray (bytes : ByteStr) : Int32 := Int32.ofNat (BigEndian.read bytes)

/-- `util.Arrays.copyOfRange`: what is missing is zero. -/
def copyOfRange (original : ByteStr) (start stop : ℕ) : Except String ByteStr :=
  if original.length < start then .error "ArrayIndexOutOfBoundsException"
  else
    let copied := slice original start (stop - start)
    .ok (copied ++ List.replicate (stop - start - copied.length) 0)

namespace PeersSpec

def AddressLength : ℕ := 4
def PortLength : ℕ := 4
def DataLength : ℕ := 4

def peerBytes (inetAddress : InetSocketAddress) : ByteStr :=
  match inetAddress.address with
  | some a => a.address ++ Ints.toByteArray inetAddress.port
  | none => []

def serializeData (peers : List InetSocketAddress) : ByteStr :=
  Ints.toByteArray peers.length ++ peers.flatMap peerBytes

def readPeer (bytes : ByteStr) (position : ℕ) : Except String InetSocketAddress := do
  let addressBytes ← copyOfRange bytes position (position + AddressLength)
  let address ← InetAddress.getByAddress addressBytes
  let portBytes ← copyOfRange bytes (position + AddressLength)
    (position + AddressLength + PortLength)
  InetSocketAddress.of address (Ints.fromByteArray portBytes).toInt

def deserializeData (bytes : ByteStr) : Except String (List InetSocketAddress) := do
  let lengthBytes ← copyOfRange bytes 0 DataLength
  let length := Ints.fromByteArray lengthBytes
  -- the product wraps
  if (bytes.length : ℤ) = (4 + length * 8).toInt then
    (List.range length.toInt.toNat).mapM fun i =>
      readPeer bytes (lengthBytes.length + i * (AddressLength + PortLength))
  else .error "AssertionError: assertion failed: Data does not match length"

end PeersSpec

namespace SignaturesSeqSpec

def DataLength : ℕ := 4

def serializeData (signatures : List ByteStr) : ByteStr :=
  Ints.toByteArray signatures.length ++ signatures.flatten

def deserializeData (bytes : ByteStr) : Except String (List ByteStr) :=
  let lengthBytes := bytes.take DataLength
  if lengthBytes.length < 4 then .error "IllegalArgumentException: array too small"
  else
    let length := Ints.fromByteArray lengthBytes
    -- the product wraps
    if (bytes.length : ℤ) = (4 + length * 64).toInt then
      .ok ((List.range length.toInt.toNat).map fun i =>
        slice bytes (DataLength + i * SignatureLength) SignatureLength)
    else .error "AssertionError: assertion failed: Data does not match length"

end SignaturesSeqSpec

namespace ScoreSpec

def serializeData (score : ℤ) : ByteStr := BigInteger.toByteArray score

/-- `BigInt(1, bytes)`. -/
def deserializeData (bytes : ByteStr) : ℤ := BigEndian.read bytes

end ScoreSpec

namespace MicroBlockInvSpec

def serializeData (inv : MicroBlockInv) : ByteStr :=
  inv.sender ++ inv.totalBlockSig ++ inv.prevBlockSig ++ inv.signature

def deserializeData (bytes : ByteStr) : MicroBlockInv where
  sender := bytes.take KeyLength
  totalBlockSig := slice bytes KeyLength SignatureLength
  prevBlockSig := slice bytes (KeyLength + SignatureLength) SignatureLength
  signature := slice bytes (KeyLength + SignatureLength * 2) SignatureLength

end MicroBlockInvSpec

/-- The specs whose bytes are laid out here. -/
inductive Kind
  | GetPeers | Peers | GetSignatures | Signatures | GetBlock | Score | MicroBlockInv
  | MicroBlockRequest
  deriving DecidableEq

def Kind.spec : Kind → MessageSpec
  | .GetPeers => GetPeersSpec
  | .Peers => PeersSpec
  | .GetSignatures => GetSignaturesSpec
  | .Signatures => SignaturesSpec
  | .GetBlock => GetBlockSpec
  | .Score => ScoreSpec
  | .MicroBlockInv => MicroBlockInvSpec
  | .MicroBlockRequest => MicroBlockRequestSpec

def Kind.deserializeData (bytes : ByteStr) : Kind → Except String Content
  | .GetPeers =>
    if bytes.isEmpty then .ok .GetPeers
    else .error "requirement failed: Non-empty data for GetPeers"
  | .Peers => Content.KnownPeers <$> PeersSpec.deserializeData bytes
  | .GetSignatures => Content.GetSignatures <$> SignaturesSeqSpec.deserializeData bytes
  | .Signatures => Content.Signatures <$> SignaturesSeqSpec.deserializeData bytes
  | .GetBlock =>
    if bytes.length = GetBlockSpec.maxLength then .ok (.GetBlock bytes)
    else .error "requirement failed: Data does not match length"
  | .Score => .ok (.Score (ScoreSpec.deserializeData bytes))
  | .MicroBlockInv => .ok (.MicroBlockInv (MicroBlockInvSpec.deserializeData bytes))
  | .MicroBlockRequest => .ok (.MicroBlockRequest bytes)

namespace Content

def kind : Content → Kind
  | GetPeers => .GetPeers
  | KnownPeers _ => .Peers
  | GetSignatures _ => .GetSignatures
  | Signatures _ => .Signatures
  | GetBlock _ => .GetBlock
  | Score _ => .Score
  | MicroBlockInv _ => .MicroBlockInv
  | MicroBlockRequest _ => .MicroBlockRequest

def serializeData : Content → ByteStr
  | GetPeers => []
  | KnownPeers peers => PeersSpec.serializeData peers
  | GetSignatures signatures => SignaturesSeqSpec.serializeData signatures
  | Signatures signatures => SignaturesSeqSpec.serializeData signatures
  | GetBlock signature => signature
  | Score score => ScoreSpec.serializeData score
  | MicroBlockInv inv => MicroBlockInvSpec.serializeData inv
  | MicroBlockRequest totalBlockSig => totalBlockSig

end Content

/-! ## 4. Parts of one width -/

section
variable {α β ε : Type}

theorem mapM_eq_ok_iff {f : α → Except ε β} {l : List α} {r : List β} :
    l.mapM f = .ok r ↔ List.Forall₂ (fun a b => f a = .ok b) l r := by
  induction l generalizing r with
  | nil => simp [List.mapM_nil, pure, Except.pure, eq_comm]
  | cons a l ih =>
    rw [List.mapM_cons, List.forall₂_cons_left_iff]
    cases ha : f a with
    | error e => simp [bind, Except.bind]
    | ok b =>
      cases hl : l.mapM f with
      | error e =>
        simp [bind, Except.bind, ← ih, hl]
      | ok bs =>
        simp [bind, Except.bind, pure, Except.pure, ← ih, hl, eq_comm]

theorem mapM_range_eq_ok {g : ℕ → Except ε β} {n : ℕ} {r : List β} :
    (List.range n).mapM g = .ok r ↔
      r.length = n ∧ ∀ i (h : i < r.length), g i = .ok r[i] := by
  rw [mapM_eq_ok_iff, List.forall₂_iff_get]
  simp only [List.length_range, List.get_eq_getElem, List.getElem_range]
  constructor
  · rintro ⟨rfl, h⟩
    exact ⟨rfl, fun i hi => h i hi hi⟩
  · rintro ⟨rfl, h⟩
    exact ⟨rfl, fun i _ hi => h i hi⟩

/-- Where parts of one width stand after something. -/
theorem slice_flatMap {f : α → ByteStr} {width : ℕ} (before : ByteStr) {l : List α}
    (h : ∀ a ∈ l, (f a).length = width) (i : ℕ) (hi : i < l.length) :
    slice (before ++ l.flatMap f) (before.length + i * width) width = f l[i] := by
  induction l generalizing before i with
  | nil => simp at hi
  | cons a l ih =>
    have ha := h a (by simp)
    rw [List.flatMap_cons, ← List.append_assoc]
    cases i with
    | zero => simp [slice, ← ha]
    | succ i =>
      have hrest := ih (before ++ f a) (fun b hb => h b (by simp [hb])) i (by simpa using hi)
      rw [List.length_append, ha] at hrest
      rw [Nat.succ_mul, Nat.add_comm (i * width), ← Nat.add_assoc]
      exact hrest

theorem length_flatMap_of_width {f : α → ByteStr} {width : ℕ} {l : List α}
    (h : ∀ a ∈ l, (f a).length = width) : (l.flatMap f).length = l.length * width := by
  induction l with
  | nil => simp
  | cons a l ih =>
    rw [List.flatMap_cons, List.length_append, h a (by simp), ih fun b hb => h b (by simp [hb]),
      List.length_cons, Nat.succ_mul, Nat.add_comm]

/-- Parts one after another are one part. -/
theorem flatMap_slice (l : ByteStr) (start width n : ℕ) :
    (List.range n).flatMap (fun i => slice l (start + i * width) width) =
      slice l start (n * width) := by
  induction n with
  | zero => simp [slice]
  | succ n ih =>
    rw [List.range_succ, List.flatMap_append, ih, Nat.succ_mul]
    simp only [List.flatMap_cons, List.flatMap_nil, List.append_nil]
    unfold slice
    rw [List.take_add, List.drop_drop]

end

/-! ## 5. The number in front -/

theorem Ints.fromByteArray_toByteArray (n : ℕ) :
    Ints.fromByteArray (Ints.toByteArray n) = Int32.ofNat n := by
  unfold Ints.fromByteArray Ints.toByteArray
  rw [BigEndian.read_write]
  apply Int32.toInt_inj.mp
  rw [Int32.toInt_ofNat', Int32.toInt_ofNat', Int32.size]
  simp only [Int.bmod_def]
  omega

theorem toInt_ofNat (n : ℕ) : (Int32.ofNat n).toInt = (n : ℤ).bmod (2 ^ 32) := by
  rw [Int32.toInt_ofNat']
  rfl

/-- The length that a number of parts makes, as the check computes it. -/
theorem toInt_lengthOf (n width : Int32) :
    (4 + n * width).toInt = (4 + n.toInt * width.toInt).bmod (2 ^ 32) := by
  have hfour : Int32.toInt 4 = 4 := rfl
  rw [Int32.toInt_add, Int32.toInt_mul, hfour, Int.add_bmod_bmod]

theorem copyOfRange_eq_ok {l r : ByteStr} {start stop : ℕ} :
    copyOfRange l start stop = .ok r ↔ start ≤ l.length ∧
      r = slice l start (stop - start) ++
        List.replicate (stop - start - (slice l start (stop - start)).length) 0 := by
  unfold copyOfRange
  by_cases h : l.length < start
  · simp [h]
  · simp [h, not_lt.mp h, eq_comm]

/-- A range that is there. -/
theorem copyOfRange_of_le {l : ByteStr} {start stop : ℕ} (hle : start ≤ stop)
    (h : stop ≤ l.length) : copyOfRange l start stop = .ok (slice l start (stop - start)) := by
  rw [copyOfRange_eq_ok, length_slice (by omega), Nat.sub_self, List.replicate_zero,
    List.append_nil]
  exact ⟨hle.trans h, rfl⟩

/-! ## 6. Peers -/

/-- A peer that is written in the eight bytes that are read. -/
def InetSocketAddress.Fits (peer : InetSocketAddress) : Prop :=
  ∃ a, peer.address = some a ∧ a.address.length = 4

namespace PeersSpec

theorem length_peerBytes {peer : InetSocketAddress} (h : peer.Fits) :
    (peerBytes peer).length = 8 := by
  obtain ⟨a, ha, hlength⟩ := h
  rw [peerBytes, ha]
  simp [hlength]

/-- Eight bytes that are there are read as a peer, if they have a port, and are the peer's. -/
theorem readPeer_eq_ok {bytes : ByteStr} {position : ℕ} (h : position + 8 ≤ bytes.length)
    {peer : InetSocketAddress} :
    readPeer bytes position = .ok peer ↔
      peer.Fits ∧ peerBytes peer = slice bytes position 8 := by
  have haddress : copyOfRange bytes position (position + AddressLength) =
      .ok (slice bytes position 4) := by
    rw [copyOfRange_of_le (by simp) (by simp only [AddressLength]; omega)]
    simp [AddressLength]
  have hport : copyOfRange bytes (position + AddressLength)
      (position + AddressLength + PortLength) = .ok (slice bytes (position + 4) 4) := by
    rw [copyOfRange_of_le (by simp) (by simp only [AddressLength, PortLength]; omega)]
    simp [AddressLength, PortLength]
  have hfour : (slice bytes position 4).length = 4 := length_slice (by omega)
  have hfour' : (slice bytes (position + 4) 4).length = 4 := length_slice (by omega)
  have hsplit : slice bytes position 8 = slice bytes position 4 ++ slice bytes (position + 4) 4 := by
    unfold slice
    rw [show (8 : ℕ) = 4 + 4 from rfl, List.take_add, List.drop_drop]
  have hread : readPeer bytes position = InetSocketAddress.of ⟨slice bytes position 4, .inl hfour⟩
      (Ints.fromByteArray (slice bytes (position + 4) 4)).toInt := by
    unfold readPeer
    rw [haddress, hport]
    simp [bind, Except.bind, InetAddress.getByAddress, hfour]
  rw [hread, hsplit, InetSocketAddress.of]
  constructor
  · intro hok
    split at hok
    · rename_i hrange
      cases hok
      refine ⟨⟨_, rfl, hfour⟩, ?_⟩
      rw [peerBytes]
      dsimp only
      rw [Ints.fromByteArray, Ints.toByteArray_toNat hfour' hrange.1]
    · cases hok
  · rintro ⟨⟨a, ha, hlength⟩, hbytes⟩
    rw [peerBytes, ha] at hbytes
    dsimp only at hbytes
    obtain ⟨hfirst, hsecond⟩ := List.append_inj hbytes (by rw [hlength, hfour])
    have hvalue : (Ints.fromByteArray (slice bytes (position + 4) 4)).toInt = peer.port := by
      rw [← hsecond, Ints.fromByteArray_toByteArray, toInt_ofNat, Int.bmod_def]
      have hrange := peer.inRange
      omega
    have hrange := peer.inRange
    rw [dif_pos (by rw [hvalue]; omega)]
    obtain ⟨address, port, inRange⟩ := peer
    simp only at ha hvalue
    subst ha
    simp only [hvalue, Int.toNat_natCast, ← hfirst]

/-- A port that begins after the end is not read. -/
theorem readPeer_ne_ok {bytes : ByteStr} {position : ℕ} (h : bytes.length < position + 4)
    (peer : InetSocketAddress) : readPeer bytes position ≠ .ok peer := by
  have hnone : copyOfRange bytes (position + AddressLength)
      (position + AddressLength + PortLength) = .error "ArrayIndexOutOfBoundsException" :=
    if_pos h
  unfold readPeer
  rw [hnone]
  intro hread
  cases haddress : copyOfRange bytes position (position + AddressLength) with
  | error e =>
    rw [haddress] at hread
    cases hread
  | ok addressBytes =>
    simp only [haddress, bind, Except.bind] at hread
    cases hread' : InetAddress.getByAddress addressBytes with
    | error e =>
      rw [hread'] at hread
      cases hread
    | ok address =>
      rw [hread'] at hread
      cases hread

/-- What is read is as many peers as the number in front says, if that is not negative, and
nothing else. -/
theorem deserializeData_eq_ok {bytes : ByteStr} {peers : List InetSocketAddress} :
    deserializeData bytes = .ok peers ↔ 4 ≤ bytes.length ∧
      (bytes.length : ℤ) = (4 + (Ints.fromByteArray (bytes.take 4)).toInt * 8).bmod (2 ^ 32) ∧
      peers.length = (Ints.fromByteArray (bytes.take 4)).toInt.toNat ∧
      ∀ i (h : i < peers.length), readPeer bytes (4 + i * 8) = .ok peers[i] := by
  have height : Int32.toInt 8 = 8 := rfl
  unfold deserializeData
  by_cases hlength : 4 ≤ bytes.length
  · have hcopy : copyOfRange bytes 0 DataLength = .ok (bytes.take 4) :=
      copyOfRange_of_le (by simp) hlength
    have htake : (bytes.take 4).length = 4 := by
      rw [List.length_take]
      omega
    rw [hcopy]
    simp only [bind, Except.bind, toInt_lengthOf, height, htake, AddressLength, PortLength]
    by_cases hcheck : (bytes.length : ℤ) =
        (4 + (Ints.fromByteArray (bytes.take 4)).toInt * 8).bmod (2 ^ 32)
    · rw [if_pos hcheck, mapM_range_eq_ok]
      exact ⟨fun h => ⟨hlength, hcheck, h⟩, fun h => h.2.2⟩
    · rw [if_neg hcheck]
      exact iff_of_false (by simp) fun h => hcheck h.2.1
  · -- no number of peers makes a length below that of the number
    refine iff_of_false ?_ fun h => hlength h.1
    cases copyOfRange bytes 0 DataLength with
    | error e => simp [bind, Except.bind]
    | ok lengthBytes =>
      simp only [bind, Except.bind, toInt_lengthOf, height]
      rw [if_neg (by rw [Int.bmod_def]; omega)]
      simp

/-- What is read is written back as it was, if the number in front is not negative. -/
theorem serializeData_of_nonneg {bytes : ByteStr} {peers : List InetSocketAddress}
    (h : deserializeData bytes = .ok peers)
    (hcount : 0 ≤ (Ints.fromByteArray (bytes.take 4)).toInt) :
    (∀ peer ∈ peers, peer.Fits) ∧ serializeData peers = bytes := by
  obtain ⟨hlength, hcheck, hn, hread⟩ := deserializeData_eq_ok.mp h
  rw [Int.bmod_def] at hcheck
  -- the last peer was read, so the bytes are all there
  have hall : bytes.length = 4 + peers.length * 8 := by
    by_contra hne
    have hlast : 0 < peers.length := by omega
    refine readPeer_ne_ok ?_ _ (hread (peers.length - 1) (by omega))
    omega
  have hpeer : ∀ i (hi : i < peers.length),
      peers[i].Fits ∧ peerBytes peers[i] = slice bytes (4 + i * 8) 8 := by
    intro i hi
    exact (readPeer_eq_ok (by omega)).mp (hread i hi)
  have hbody : peers.flatMap peerBytes = slice bytes 4 (peers.length * 8) := by
    rw [← flatMap_slice, List.flatMap_def, List.flatMap_def]
    congr 1
    apply List.ext_getElem (by simp)
    intro i hi _
    rw [List.length_map] at hi
    simp [(hpeer i hi).2]
  refine ⟨?_, ?_⟩
  · intro peer hpeers
    obtain ⟨i, hi, rfl⟩ := List.getElem_of_mem hpeers
    exact (hpeer i hi).1
  · have htake : (bytes.take 4).length = 4 := by
      rw [List.length_take]
      omega
    have hrest : slice bytes 4 (peers.length * 8) = bytes.drop 4 :=
      List.take_of_length_le (by rw [List.length_drop]; omega)
    rw [serializeData, hbody, hrest, hn, Ints.fromByteArray, Ints.toByteArray_toNat htake hcount,
      List.take_append_drop]

theorem length_serializeData {peers : List InetSocketAddress} (h : ∀ peer ∈ peers, peer.Fits) :
    (serializeData peers).length = 4 + peers.length * 8 := by
  rw [serializeData, List.length_append, Ints.length_toByteArray,
    length_flatMap_of_width fun peer hpeer => length_peerBytes (h peer hpeer)]

/-- Peers with addresses of four bytes are read back. -/
theorem deserializeData_serializeData {peers : List InetSocketAddress} (hn : peers.length ≤ 1000)
    (hfits : ∀ peer ∈ peers, peer.Fits) : deserializeData (serializeData peers) = .ok peers := by
  have hcount : (Ints.fromByteArray ((serializeData peers).take 4)).toInt = peers.length := by
    rw [serializeData, List.take_left' (Ints.length_toByteArray _), Ints.fromByteArray_toByteArray,
      toInt_ofNat, Int.bmod_def]
    omega
  rw [deserializeData_eq_ok, hcount, length_serializeData hfits, Int.bmod_def]
  refine ⟨by omega, by omega, by omega, ?_⟩
  intro i hi
  rw [readPeer_eq_ok (by rw [length_serializeData hfits]; omega)]
  refine ⟨hfits _ (List.getElem_mem hi), ?_⟩
  have hslice := slice_flatMap (Ints.toByteArray peers.length)
    (fun peer hpeer => length_peerBytes (hfits peer hpeer)) i hi
  rw [Ints.length_toByteArray] at hslice
  exact hslice.symm

/-- Peers are read back if they have addresses of four bytes, and only then. -/
theorem deserializeData_serializeData_iff (peers : List InetSocketAddress) :
    (serializeData peers).length ≤ BasicMessagesRepo.PeersSpec.maxLength ∧
        deserializeData (serializeData peers) = .ok peers ↔
      peers.length ≤ 1000 ∧ ∀ peer ∈ peers, peer.Fits := by
  have hmax : BasicMessagesRepo.PeersSpec.maxLength = 4 + 1000 * 8 := rfl
  constructor
  · rintro ⟨hle, hread⟩
    have hn := (deserializeData_eq_ok.mp hread).2.2.1
    rcases Nat.eq_zero_or_pos peers.length with hzero | hpos
    · obtain rfl := List.length_eq_zero_iff.mp hzero
      simp
    · obtain ⟨hfits, -⟩ := serializeData_of_nonneg hread (by omega)
      rw [length_serializeData hfits, hmax] at hle
      exact ⟨by omega, hfits⟩
  · rintro ⟨hn, hfits⟩
    rw [length_serializeData hfits, hmax]
    exact ⟨by omega, deserializeData_serializeData hn hfits⟩

/-- The bytes that are read are those that are written, if the number in front is not negative,
and only then. -/
theorem serializeData_eq_iff {bytes : ByteStr} {peers : List InetSocketAddress}
    (h : deserializeData bytes = .ok peers) :
    serializeData peers = bytes ↔ 0 ≤ (Ints.fromByteArray (bytes.take 4)).toInt := by
  constructor
  · intro hbytes
    by_contra hneg
    obtain ⟨-, -, hn, -⟩ := deserializeData_eq_ok.mp h
    obtain rfl : peers = [] := List.length_eq_zero_iff.mp (by omega)
    rw [← hbytes] at hneg
    exact hneg (by decide)
  · intro hcount
    exact (serializeData_of_nonneg h hcount).2

end PeersSpec

/-! ## 7. Signatures -/

namespace SignaturesSeqSpec

/-- Signatures that are written in the slots that are read: at most two hundred of sixty-four
bytes. The number in front times sixty-four wraps, so behind them there may be empty ones, as
many as make whole words. -/
def Fit (signatures : List ByteStr) : Prop :=
  signatures.length < 2 ^ 31 ∧ ∃ n ≤ 200, signatures.length % 2 ^ 26 = n ∧
    (∀ s ∈ signatures.take n, s.length = SignatureLength) ∧ ∀ s ∈ signatures.drop n, s = []

/-- A list that is not too long fits if it is short and has whole signatures only. -/
theorem fit_iff {signatures : List ByteStr} (h : signatures.length < 2 ^ 26) :
    Fit signatures ↔ signatures.length ≤ 200 ∧ ∀ s ∈ signatures, s.length = SignatureLength := by
  unfold Fit
  rw [Nat.mod_eq_of_lt h]
  constructor
  · rintro ⟨-, n, hn, rfl, hwhole, -⟩
    rw [List.take_length] at hwhole
    exact ⟨hn, hwhole⟩
  · rintro ⟨hn, hwhole⟩
    refine ⟨by omega, _, hn, rfl, ?_, by simp⟩
    rwa [List.take_length]

theorem deserializeData_eq_ok {bytes : ByteStr} {signatures : List ByteStr} :
    deserializeData bytes = .ok signatures ↔ 4 ≤ bytes.length ∧
      (bytes.length : ℤ) = (4 + (Ints.fromByteArray (bytes.take 4)).toInt * 64).bmod (2 ^ 32) ∧
      signatures = (List.range (Ints.fromByteArray (bytes.take 4)).toInt.toNat).map fun i =>
        slice bytes (4 + i * 64) 64 := by
  have hwidth : Int32.toInt 64 = 64 := rfl
  unfold deserializeData
  simp only [toInt_lengthOf, hwidth, DataLength, SignatureLength]
  by_cases hlength : 4 ≤ bytes.length
  · rw [if_neg (by rw [List.length_take]; omega)]
    by_cases hcheck : (bytes.length : ℤ) =
        (4 + (Ints.fromByteArray (bytes.take 4)).toInt * 64).bmod (2 ^ 32)
    · rw [if_pos hcheck, Except.ok.injEq]
      exact ⟨fun h => ⟨hlength, hcheck, h.symm⟩, fun h => h.2.2.symm⟩
    · rw [if_neg hcheck]
      exact iff_of_false (by simp) fun h => hcheck h.2.1
  · rw [if_pos (by rw [List.length_take]; omega)]
    exact iff_of_false (by simp) fun h => hlength h.1

/-- The bytes that are read are those that are written, if the number in front is not negative,
and only then. -/
theorem serializeData_eq_iff {bytes : ByteStr} {signatures : List ByteStr}
    (h : deserializeData bytes = .ok signatures) :
    serializeData signatures = bytes ↔ 0 ≤ (Ints.fromByteArray (bytes.take 4)).toInt := by
  obtain ⟨hlength, hcheck, hsignatures⟩ := deserializeData_eq_ok.mp h
  constructor
  · intro hbytes
    by_contra hneg
    obtain rfl : signatures = [] := by
      rw [hsignatures, show (Ints.fromByteArray (bytes.take 4)).toInt.toNat = 0 by omega]
      rfl
    rw [← hbytes] at hneg
    exact hneg (by decide)
  · intro hcount
    have htake : (bytes.take 4).length = 4 := by
      rw [List.length_take]
      omega
    have hbody : signatures.flatten = bytes.drop 4 := by
      rw [hsignatures, ← List.flatMap_def, flatMap_slice]
      apply List.take_of_length_le
      rw [List.length_drop]
      rw [Int.bmod_def] at hcheck
      omega
    have hn : signatures.length = (Ints.fromByteArray (bytes.take 4)).toInt.toNat := by
      rw [hsignatures, List.length_map, List.length_range]
    rw [serializeData, hbody, hn, Ints.fromByteArray, Ints.toByteArray_toNat htake hcount,
      List.take_append_drop]

/-- Signatures are read back if they fit, and only then. -/
theorem deserializeData_serializeData_iff (signatures : List ByteStr) :
    (serializeData signatures).length ≤ 4 + 200 * SignatureLength ∧
        deserializeData (serializeData signatures) = .ok signatures ↔ Fit signatures := by
  have hfront : (serializeData signatures).take 4 = Ints.toByteArray signatures.length :=
    List.take_left' (Ints.length_toByteArray _)
  have hlength : (serializeData signatures).length = 4 + signatures.flatten.length := by
    rw [serializeData, List.length_append, Ints.length_toByteArray]
  rw [deserializeData_eq_ok, hfront, Ints.fromByteArray_toByteArray, toInt_ofNat, hlength]
  simp only [SignatureLength, Int.bmod_def]
  constructor
  · rintro ⟨hmax, -, hcheck, hsignatures⟩
    have hn := congrArg List.length hsignatures
    rw [List.length_map, List.length_range] at hn
    -- as many as there are bytes for, and whole words of empty ones
    obtain ⟨n, hn200, hmod, hbytes⟩ : ∃ n ≤ 200, signatures.length % 2 ^ 26 = n ∧
        signatures.flatten.length = n * 64 :=
      ⟨signatures.length % 2 ^ 26, by omega, rfl, by omega⟩
    have hslice : ∀ i (hi : i < signatures.length),
        signatures[i] = slice (serializeData signatures) (4 + i * 64) 64 := by
      intro i hi
      have hget := List.getElem_of_eq hsignatures hi
      rwa [List.getElem_map, List.getElem_range] at hget
    refine ⟨by omega, n, hn200, hmod, ?_, ?_⟩
    · intro s hs
      obtain ⟨i, hi, rfl⟩ := List.getElem_of_mem hs
      rw [List.length_take] at hi
      rw [List.getElem_take, hslice i (by omega), length_slice (by omega)]
      rfl
    · intro s hs
      obtain ⟨i, hi, rfl⟩ := List.getElem_of_mem hs
      rw [List.length_drop] at hi
      rw [List.getElem_drop, hslice (n + i) (by omega), slice, List.drop_eq_nil_of_le (by omega)]
      rfl
  · rintro ⟨hlt, n, hn200, hmod, hwhole, hempty⟩
    have hdrop : (signatures.drop n).flatten = [] := by
      rw [List.flatten_eq_nil_iff]
      exact hempty
    have hparts : signatures.flatten = (signatures.take n).flatMap fun s => s := by
      conv_lhs => rw [← List.take_append_drop n signatures]
      rw [List.flatten_append, hdrop, List.append_nil, List.flatMap_id']
    have hbytes : signatures.flatten.length = n * 64 := by
      rw [hparts, length_flatMap_of_width hwhole, List.length_take]
      simp only [SignatureLength]
      omega
    refine ⟨by omega, by omega, by omega, ?_⟩
    apply List.ext_getElem
    · rw [List.length_map, List.length_range]
      omega
    · intro i hi hi'
      rw [List.getElem_map, List.getElem_range]
      by_cases hin : i < n
      · have hslice := slice_flatMap (Ints.toByteArray signatures.length) hwhole i
          (by rw [List.length_take]; omega)
        rw [← hparts, Ints.length_toByteArray, List.getElem_take] at hslice
        exact hslice.symm
      · rw [slice, List.drop_eq_nil_of_le (by omega), List.take_nil]
        apply hempty
        have hmem := List.getElem_mem (l := signatures.drop n) (n := i - n)
          (by rw [List.length_drop]; omega)
        rw [List.getElem_drop] at hmem
        simpa [show n + (i - n) = i by omega] using hmem

end SignaturesSeqSpec

/-! ## 8. Scores -/

namespace ScoreSpec

theorem natCast_lt_pow_iff (n k : ℕ) : (n : ℤ) < 2 ^ k ↔ n < 2 ^ k := by
  exact_mod_cast Iff.rfl

/-- A score is read back if it is not negative and below `2 ^ 511`, and only then. -/
theorem deserializeData_serializeData_iff (score : ℤ) :
    (serializeData score).length ≤ BasicMessagesRepo.ScoreSpec.maxLength ∧
        deserializeData (serializeData score) = score ↔ 0 ≤ score ∧ score < 2 ^ 511 := by
  have hmax : BasicMessagesRepo.ScoreSpec.maxLength = 64 := rfl
  unfold serializeData deserializeData
  by_cases hneg : score < 0
  · refine iff_of_false ?_ fun h => by omega
    rintro ⟨-, hread⟩
    omega
  · obtain ⟨n, rfl⟩ := Int.eq_ofNat_of_zero_le (not_lt.mp hneg)
    obtain ⟨hbytes, hlt⟩ := BigInteger.toByteArray_natCast n
    rw [hbytes, BigEndian.length_write, BigEndian.read_write, Nat.mod_eq_of_lt hlt, hmax]
    rw [natCast_lt_pow_iff, ← Nat.size_le]
    constructor
    · rintro ⟨hle, -⟩
      exact ⟨Int.natCast_nonneg n, by omega⟩
    · rintro ⟨-, hle⟩
      exact ⟨by omega, rfl⟩

/-- The bytes of a score are those that are written, if there are as few as can be, and only
then. -/
theorem serializeData_eq_iff (bytes : ByteStr) :
    serializeData (deserializeData bytes) = bytes ↔ BigInteger.Minimal bytes :=
  BigInteger.toByteArray_read_eq_iff bytes

end ScoreSpec

/-! ## 9. Announcements of micro-blocks -/

/-- Bytes cut into slots. -/
def cut : List ℕ → ByteStr → List ByteStr
  | [], _ => []
  | width :: widths, bytes => bytes.take width :: cut widths (bytes.drop width)

/-- What is put into slots fills them from the first on. -/
def FillSlots : List (ℕ × ByteStr) → Prop
  | [] => True
  | slot :: rest => slot.2.length ≤ slot.1 ∧ (slot.2.length < slot.1 → ∀ next ∈ rest, next.2 = []) ∧
    FillSlots rest

theorem cut_flatMap_iff (slots : List (ℕ × ByteStr)) :
    cut (slots.map Prod.fst) (slots.flatMap Prod.snd) = slots.map Prod.snd ↔ FillSlots slots := by
  induction slots with
  | nil => simp [cut, FillSlots]
  | cons slot rest ih =>
    obtain ⟨width, bytes⟩ := slot
    have hempty : rest.flatMap Prod.snd = [] ↔ ∀ next ∈ rest, next.2 = [] := by
      rw [List.flatMap_eq_nil_iff]
    rw [List.map_cons, List.flatMap_cons, List.map_cons, cut, List.cons.injEq, FillSlots, ← hempty,
      ← ih]
    dsimp only
    constructor
    · rintro ⟨hfirst, hrest⟩
      have hlength := congrArg List.length hfirst
      rw [List.length_take, List.length_append] at hlength
      have hshort : bytes.length < width → rest.flatMap Prod.snd = [] := by
        intro hlt
        exact List.length_eq_zero_iff.mp (by omega)
      refine ⟨by omega, hshort, ?_⟩
      rcases Nat.lt_or_ge bytes.length width with hlt | hge
      · rw [List.drop_eq_nil_of_le (by rw [List.length_append, hshort hlt]; simp; omega)] at hrest
        rwa [hshort hlt]
      · rwa [List.drop_left' (by omega)] at hrest
    · rintro ⟨hle, hshort, hrest⟩
      rcases Nat.lt_or_ge bytes.length width with hlt | hge
      · rw [hshort hlt] at hrest ⊢
        rw [List.append_nil, List.take_of_length_le hle, List.drop_eq_nil_of_le hle]
        exact ⟨rfl, hrest⟩
      · rw [List.take_left' (by omega), List.drop_left' (by omega)]
        exact ⟨rfl, hrest⟩

theorem flatten_cut (widths : List ℕ) (bytes : ByteStr) :
    (cut widths bytes).flatten = bytes.take widths.sum := by
  induction widths generalizing bytes with
  | nil => simp [cut]
  | cons width widths ih =>
    rw [cut, List.flatten_cons, ih, List.sum_cons, List.take_add]

namespace MicroBlockInvSpec

def widths : List ℕ := [KeyLength, SignatureLength, SignatureLength, SignatureLength]

def fields (inv : MicroBlockInv) : List ByteStr :=
  [inv.sender, inv.totalBlockSig, inv.prevBlockSig, inv.signature]

theorem fields_deserializeData (bytes : ByteStr) :
    fields (deserializeData bytes) = cut widths bytes := by
  simp [fields, deserializeData, widths, cut, slice, KeyLength, SignatureLength]

theorem serializeData_eq (inv : MicroBlockInv) : serializeData inv = (fields inv).flatten := by
  simp [serializeData, fields]

theorem fields_injective {inv inv' : MicroBlockInv} (h : fields inv = fields inv') : inv = inv' := by
  obtain ⟨sender, total, prev, signature⟩ := inv
  simp only [fields, List.cons.injEq, and_true] at h
  obtain ⟨rfl, rfl, rfl, rfl⟩ := h
  rfl

/-- An announcement is read back if it fills its slots from the first on, and only then. -/
theorem deserializeData_serializeData_iff (inv : MicroBlockInv) :
    (serializeData inv).length ≤ BasicMessagesRepo.MicroBlockInvSpec.maxLength ∧
        deserializeData (serializeData inv) = inv ↔ FillSlots (widths.zip (fields inv)) := by
  have hmax : BasicMessagesRepo.MicroBlockInvSpec.maxLength = 300 := rfl
  have hfst : (widths.zip (fields inv)).map Prod.fst = widths := rfl
  have hsnd : (widths.zip (fields inv)).map Prod.snd = fields inv := rfl
  rw [← cut_flatMap_iff, List.flatMap_def, hfst, hsnd, ← serializeData_eq,
    ← fields_deserializeData]
  constructor
  · rintro ⟨-, hread⟩
    rw [hread]
  · intro hfields
    refine ⟨?_, fields_injective hfields⟩
    rw [fields_deserializeData] at hfields
    have hbytes := flatten_cut widths (serializeData inv)
    rw [hfields, ← serializeData_eq] at hbytes
    rw [hbytes, List.length_take, hmax]
    exact (Nat.min_le_left _ _).trans (by decide)

theorem serializeData_eq_iff (bytes : ByteStr) :
    serializeData (deserializeData bytes) = bytes ↔ bytes.length ≤ 224 := by
  have hsum : widths.sum = 224 := rfl
  rw [serializeData_eq, fields_deserializeData, flatten_cut, hsum, List.take_eq_self_iff]

end MicroBlockInvSpec

/-! ## 10. Messages -/

/-- The bytes that are those of what is read of them. -/
def Kind.Canonical (bytes : ByteStr) : Kind → Prop
  | .Peers | .GetSignatures | .Signatures => 0 ≤ (Ints.fromByteArray (bytes.take 4)).toInt
  | .Score => BigInteger.Minimal bytes
  | .MicroBlockInv => bytes.length ≤ 224
  | .GetPeers | .GetBlock | .MicroBlockRequest => True

namespace Content

/-- What a receiver reads as it was sent. -/
def Deliverable : Content → Prop
  | GetPeers => True
  | KnownPeers peers => peers.length ≤ 1000 ∧ ∀ peer ∈ peers, peer.Fits
  | GetSignatures signatures => SignaturesSeqSpec.Fit signatures
  | Signatures signatures => SignaturesSeqSpec.Fit signatures
  | GetBlock signature => signature.length = SignatureLength
  | Score score => 0 ≤ score ∧ score < 2 ^ 511
  | MicroBlockInv inv => FillSlots (MicroBlockInvSpec.widths.zip (MicroBlockInvSpec.fields inv))
  | MicroBlockRequest totalBlockSig => totalBlockSig.length ≤ 500

theorem map_eq_ok_iff {α : Type} {x : Except String α} {f : α → Content}
    (hf : ∀ a a', f a = f a' → a = a') {a : α} : f <$> x = .ok (f a) ↔ x = .ok a := by
  cases x with
  | error e => simp [Functor.map, Except.map]
  | ok a' =>
    simp only [Functor.map, Except.map, Except.ok.injEq]
    exact ⟨hf a' a, congrArg f⟩

/-- For every message: it is not longer than its spec allows and is read back as it was, if it
is deliverable, and only then. -/
theorem delivered_iff (c : Content) :
    c.serializeData.length ≤ c.kind.spec.maxLength ∧
        c.kind.deserializeData c.serializeData = .ok c ↔ c.Deliverable := by
  cases c with
  | GetPeers => simp [serializeData, kind, Kind.deserializeData, Deliverable]
  | KnownPeers peers =>
    rw [Deliverable, ← PeersSpec.deserializeData_serializeData_iff]
    apply and_congr_right'
    exact map_eq_ok_iff fun a a' h => Content.KnownPeers.inj h
  | GetSignatures signatures =>
    rw [Deliverable, ← SignaturesSeqSpec.deserializeData_serializeData_iff]
    apply and_congr_right'
    exact map_eq_ok_iff fun a a' h => Content.GetSignatures.inj h
  | Signatures signatures =>
    rw [Deliverable, ← SignaturesSeqSpec.deserializeData_serializeData_iff]
    apply and_congr_right'
    exact map_eq_ok_iff fun a a' h => Content.Signatures.inj h
  | GetBlock signature =>
    change signature.length ≤ SignatureLength ∧
      (if signature.length = SignatureLength then Except.ok (Content.GetBlock signature)
        else .error "requirement failed: Data does not match length") = .ok _ ↔
      signature.length = SignatureLength
    by_cases hlength : signature.length = SignatureLength
    · rw [if_pos hlength]
      exact iff_of_true ⟨hlength.le, rfl⟩ hlength
    · rw [if_neg hlength]
      exact iff_of_false (by simp) hlength
  | Score score =>
    rw [Deliverable, ← ScoreSpec.deserializeData_serializeData_iff]
    apply and_congr_right'
    simp [serializeData, kind, Kind.deserializeData]
  | MicroBlockInv inv =>
    rw [Deliverable, ← MicroBlockInvSpec.deserializeData_serializeData_iff]
    apply and_congr_right'
    simp [serializeData, kind, Kind.deserializeData]
  | MicroBlockRequest totalBlockSig =>
    simp [serializeData, kind, Kind.deserializeData, Deliverable, Kind.spec, MicroBlockRequestSpec]

end Content

end WavesNode
