/-
The frames of the network.

A frame is a magic number, the code of a message, the length of its bytes and, if it has any,
the beginning of their digest and the bytes. The decoder drops a transaction of the old
encoding whose digest is in a cache, and puts the digest of any other into it; the cache
forgets a digest after some time. A peer that sends anything else than a frame is blacklisted.

Failures of the buffer itself, of too few bytes and of a negative size, are told from each
other by their names only.
-/
import WavesNode.BasicMessagesRepo
import WavesNode.EventRuns
import WavesNode.Readers

set_option autoImplicit false

namespace WavesNode

open ByteBuffer BasicMessagesRepo

structure RawBytes where
  code : Byte
  data : ByteStr
  deriving DecidableEq

namespace LegacyFrameCodec

/-! ## 1. The codec -/

def Magic : ℕ := 0x12345678

def ChecksumLength : ℕ := 4

section
variable [Crypto]

def checksum (data : ByteStr) : ByteStr := (Crypto.fastHash data).take ChecksumLength

def encode (msg : RawBytes) : ByteStr :=
  Ints.toByteArray Magic ++ ([msg.code] ++
    if 0 < msg.data.length then
      Ints.toByteArray msg.data.length ++ (checksum msg.data ++ msg.data)
    else Ints.toByteArray 0)

/-- What goes down the pipeline, and the cache after it. The cache has digests, each once in
base 64. -/
def pushToPipeline (receivedTxsCache : Finset ByteStr) (spec : MessageSpec) (msg : RawBytes) :
    Finset ByteStr × Option RawBytes :=
  let rawChecksum := Crypto.fastHash msg.data
  if spec ≠ TransactionSpec then (receivedTxsCache, some msg)
  else if rawChecksum ∈ receivedTxsCache then (receivedTxsCache, none)
  else (insert rawChecksum receivedTxsCache, some msg)

def decode (receivedTxsCache : Finset ByteStr) : Reader (Finset ByteStr × Option RawBytes) := do
  let magic ← getInt
  require (decide (magic = Magic)) "invalid magic number"
  let code ← ByteBuffer.get
  match specsByCodes code with
  | none => throw s!"requirement failed: Unexpected message code {code}"
  | some spec =>
    let length ← getInt
    require (decide (length ≤ spec.maxLength))
      s!"{spec.messageName} message length {length} exceeds {spec.maxLength}"
    if length < 0 then throw "NegativeArraySizeException"
    else if length = 0 then pure (receivedTxsCache, some ⟨code, []⟩)
    else
      let declaredChecksum ← getArray ChecksumLength
      let dataBytes ← getArray length.toNat
      require (decide (declaredChecksum = checksum dataBytes)) "invalid checksum"
      pure (pushToPipeline receivedTxsCache spec ⟨code, dataBytes⟩)

/-! ## 2. Frames -/

/-- A message with a code that has a spec, and no longer than the spec allows. -/
def Valid (msg : RawBytes) : Prop :=
  ∃ spec, specsByCodes msg.code = some spec ∧ msg.data.length ≤ spec.maxLength

/-- A transaction of the old encoding; an empty message is not looked at. -/
def IsTransaction (msg : RawBytes) : Prop :=
  msg.code = TransactionSpec.messageCode ∧ msg.data ≠ []

instance (msg : RawBytes) : Decidable (IsTransaction msg) :=
  inferInstanceAs (Decidable (_ ∧ _))

/-- What the decoder makes of a message. -/
def accept (receivedTxsCache : Finset ByteStr) (msg : RawBytes) :
    Finset ByteStr × Option RawBytes :=
  if IsTransaction msg then pushToPipeline receivedTxsCache TransactionSpec msg
  else (receivedTxsCache, some msg)

theorem accept_snd (receivedTxsCache : Finset ByteStr) (msg : RawBytes) :
    (accept receivedTxsCache msg).2 =
      if IsTransaction msg ∧ Crypto.fastHash msg.data ∈ receivedTxsCache then none
      else some msg := by
  unfold accept pushToPipeline
  by_cases htransaction : IsTransaction msg
  · by_cases hmem : Crypto.fastHash msg.data ∈ receivedTxsCache
    · simp [htransaction, hmem]
    · simp [htransaction, hmem]
  · simp [htransaction]

theorem mem_accept_fst (receivedTxsCache : Finset ByteStr) (msg : RawBytes)
    (rawChecksum : ByteStr) : rawChecksum ∈ (accept receivedTxsCache msg).1 ↔
      IsTransaction msg ∧ Crypto.fastHash msg.data = rawChecksum ∨
        rawChecksum ∈ receivedTxsCache := by
  unfold accept pushToPipeline
  by_cases htransaction : IsTransaction msg
  · by_cases hmem : Crypto.fastHash msg.data ∈ receivedTxsCache
    · simp only [htransaction, hmem, ne_eq, not_true_eq_false, if_false, if_true, true_and]
      constructor
      · exact .inr
      · rintro (rfl | hold)
        · exact hmem
        · exact hold
    · simp [htransaction, hmem, eq_comm]
  · simp [htransaction]

omit [Crypto] in
theorem specsByCodes_eq_TransactionSpec_iff {code : Byte} {spec : MessageSpec}
    (h : specsByCodes code = some spec) :
    spec = TransactionSpec ↔ code = TransactionSpec.messageCode := by
  constructor
  · rintro rfl
    exact (messageCode_of_specsByCodes h).symm
  · rintro rfl
    have hfound : specsByCodes TransactionSpec.messageCode = some TransactionSpec := by decide
    exact Option.some.inj (h.symm.trans hfound)

theorem pushToPipeline_eq_accept {receivedTxsCache : Finset ByteStr} {spec : MessageSpec}
    {msg : RawBytes} (h : specsByCodes msg.code = some spec) (hdata : msg.data ≠ []) :
    pushToPipeline receivedTxsCache spec msg = accept receivedTxsCache msg := by
  have hspec := specsByCodes_eq_TransactionSpec_iff h
  unfold accept
  by_cases htransaction : IsTransaction msg
  · rw [if_pos htransaction, hspec.mpr htransaction.1]
  · have hne : spec ≠ TransactionSpec := fun heq => htransaction ⟨hspec.mp heq, hdata⟩
    rw [if_neg htransaction, pushToPipeline, if_pos hne]

omit [Crypto] in
theorem maxLength_lt : ∀ spec ∈ specs, spec.maxLength < 2 ^ 31 := by
  decide

omit [Crypto] in
theorem Valid.length_lt {msg : RawBytes} (h : Valid msg) : msg.data.length < 2 ^ 31 := by
  obtain ⟨spec, hspec, hle⟩ := h
  exact hle.trans_lt (maxLength_lt spec (List.mem_of_find?_eq_some hspec))

omit [Crypto] in
theorem takes_getArray_of_length {bytes : ByteStr} {n : ℕ} (h : bytes.length = n) :
    Takes (getArray n) bytes bytes := by
  subst h
  exact takes_getArray bytes

theorem length_checksum (hdigest : ∀ bytes, ChecksumLength ≤ (Crypto.fastHash bytes).length)
    (data : ByteStr) : (checksum data).length = ChecksumLength := by
  rw [checksum, List.length_take]
  exact Nat.min_eq_left (hdigest data)

/-- The frame of a message is read wherever it stands, to its end and no further. -/
theorem takes_decode (hdigest : ∀ bytes, ChecksumLength ≤ (Crypto.fastHash bytes).length)
    (receivedTxsCache : Finset ByteStr) {msg : RawBytes} (h : Valid msg) :
    Takes (decode receivedTxsCache) (encode msg) (accept receivedTxsCache msg) := by
  obtain ⟨spec, hspec, hle⟩ := id h
  unfold decode encode
  refine (takes_getInt (by decide)).bind ?_
  refine (takes_require (by simp)).nil_bind ?_
  refine (takes_get msg.code).bind ?_
  rw [hspec]
  dsimp only
  rcases Nat.eq_zero_or_pos msg.data.length with hzero | hpos
  · -- an empty message ends with its length
    have hempty : msg.data = [] := List.length_eq_zero_iff.mp hzero
    have haccept : accept receivedTxsCache msg = (receivedTxsCache, some ⟨msg.code, []⟩) := by
      rw [accept, if_neg fun ht => ht.2 hempty, ← hempty]
    rw [if_neg (by omega), haccept]
    refine (takes_getInt (by decide)).bind_nil ?_
    exact (takes_require (by simp)).nil_bind (Takes.pure _)
  · rw [if_pos hpos]
    refine (takes_getInt h.length_lt).bind ?_
    refine (takes_require (by simpa using hle)).nil_bind ?_
    rw [if_neg (by omega), if_neg (by omega), Int.toNat_natCast]
    refine (takes_getArray_of_length (length_checksum hdigest msg.data)).bind ?_
    refine (takes_getArray msg.data).bind_nil ?_
    refine (takes_require (by simp)).nil_bind ?_
    rw [pushToPipeline_eq_accept hspec (List.ne_nil_of_length_pos hpos)]
    exact Takes.pure _

omit [Crypto] in
theorem stretch_getInt (l : ByteStr) (p : ℕ) :
    Reads getInt l p fun a q => 0 ≤ a → Stretch l p (Ints.toByteArray a.toNat) q := by
  intro a b' h
  obtain ⟨hle, h⟩ := getInt_eq_ok.mp h
  obtain ⟨rfl, rfl⟩ := Prod.mk.inj h
  refine ⟨rfl, ?_⟩
  intro hnonneg
  have hlength : (slice l p 4).length = 4 := length_slice hle
  dsimp only [intAt] at hnonneg ⊢
  rw [Ints.toByteArray_toNat hlength hnonneg]
  exact stretch_slice l p 4

omit [Crypto] in
theorem stretch_get (l : ByteStr) (p : ℕ) :
    Reads ByteBuffer.get l p fun a q => Stretch l p [a] q := by
  intro a b' h
  obtain ⟨hlt, h⟩ := get_eq_ok.mp h
  obtain ⟨rfl, rfl⟩ := Prod.mk.inj h
  refine ⟨rfl, ?_⟩
  dsimp only at hlt ⊢
  rw [Stretch, List.drop_eq_getElem_cons hlt, byteAt, List.getD_eq_getElem?_getD,
    List.getElem?_eq_getElem hlt]
  rfl

omit [Crypto] in
theorem stretch_getArray (n : ℕ) (l : ByteStr) (p : ℕ) :
    Reads (getArray n) l p fun a q => a.length = n ∧ Stretch l p a q := by
  refine reads_getArray.mono ?_
  rintro a q ⟨rfl, hlength, rfl⟩
  exact ⟨hlength, stretch_slice l p n⟩

/-- What is read at all is the frame of a message. -/
theorem reads_decode (receivedTxsCache : Finset ByteStr) (l : ByteStr) (p : ℕ) :
    Reads (decode receivedTxsCache) l p fun _ q =>
      ∃ msg, Valid msg ∧ Stretch l p (encode msg) q := by
  unfold decode
  refine (stretch_getInt l p).bind fun magic q hmagic => reads_require.bind ?_
  rintro _ q ⟨heq, rfl⟩
  have hmagic : Stretch l p (Ints.toByteArray Magic) q := by
    rw [of_decide_eq_true heq] at hmagic
    exact hmagic (Int.natCast_nonneg _)
  refine (stretch_get l q).bind fun code q hcode => ?_
  cases hspec : specsByCodes code with
  | none => exact .throw
  | some spec =>
    refine (stretch_getInt l q).bind fun length q hlength => reads_require.bind ?_
    rintro _ q ⟨hmax, rfl⟩
    have hmax := of_decide_eq_true hmax
    refine .ite (fun _ => .throw) fun hnonneg => ?_
    have hnumber := hlength (not_lt.mp hnonneg)
    refine .ite ?_ fun hne => ?_
    · rintro rfl
      refine .pure ⟨⟨code, []⟩, ⟨spec, hspec, Nat.zero_le _⟩, ?_⟩
      exact hmagic.append (hcode.append hnumber)
    · refine (stretch_getArray ChecksumLength l q).bind ?_
      rintro declaredChecksum q' ⟨-, hdeclared⟩
      refine (stretch_getArray length.toNat l q').bind ?_
      rintro dataBytes q ⟨hbytes, hdata⟩
      refine reads_require.bind ?_
      rintro _ q ⟨hchecksum, rfl⟩
      rw [of_decide_eq_true hchecksum] at hdeclared
      refine .pure ⟨⟨code, dataBytes⟩, ⟨spec, hspec, ?_⟩, ?_⟩
      · dsimp only
        omega
      · unfold encode
        rw [if_pos (by dsimp only; omega), hbytes]
        exact hmagic.append (hcode.append (hnumber.append (hdeclared.append hdata)))

/-- The decoder reads the frames of messages that have a spec and are not longer than it allows,
and nothing else; it stops where a frame ends, and the digest of a message alone decides whether
it is dropped. -/
theorem decode_eq_ok_iff (hdigest : ∀ bytes, ChecksumLength ≤ (Crypto.fastHash bytes).length)
    (receivedTxsCache : Finset ByteStr) (l : ByteStr) (p : ℕ)
    (r : Finset ByteStr × Option RawBytes) (b' : ByteBuffer) :
    decode receivedTxsCache ⟨l, p⟩ = .ok (r, b') ↔
      ∃ msg rest, Valid msg ∧ l.drop p = encode msg ++ rest ∧
        r = accept receivedTxsCache msg ∧ b' = ⟨l, p + (encode msg).length⟩ := by
  have hframe : ∀ msg rest, Valid msg → l.drop p = encode msg ++ rest →
      decode receivedTxsCache ⟨l, p⟩ =
        .ok (accept receivedTxsCache msg, ⟨l, p + (encode msg).length⟩) := by
    intro msg rest hvalid hdrop
    -- behind the end of the buffer nothing stands
    have hp : (l.take p).length = p := by
      rw [List.length_take]
      apply Nat.min_eq_left
      by_contra hgt
      rw [List.drop_eq_nil_of_le (by omega)] at hdrop
      have hlength := congrArg List.length hdrop
      simp [encode] at hlength
    have htakes := takes_decode hdigest receivedTxsCache hvalid (l.take p) rest
    rwa [← hdrop, List.take_append_drop, hp] at htakes
  constructor
  · intro h
    obtain ⟨-, msg, hvalid, hdrop⟩ := reads_decode receivedTxsCache l p r b' h
    rw [hframe msg _ hvalid hdrop] at h
    cases h
    exact ⟨msg, _, hvalid, hdrop, rfl, rfl⟩
  · rintro ⟨msg, rest, hvalid, hdrop, rfl, rfl⟩
    exact hframe msg rest hvalid hdrop

/-- What follows the length of a message. -/
def payload (data : ByteStr) : ByteStr := if data = [] then [] else checksum data ++ data

theorem encode_eq (msg : RawBytes) : encode msg = Ints.toByteArray Magic ++
    ([msg.code] ++ (Ints.toByteArray msg.data.length ++ payload msg.data)) := by
  unfold encode payload
  by_cases hempty : msg.data = []
  · simp [hempty]
  · rw [if_pos (List.length_pos_of_ne_nil hempty), if_neg hempty]

theorem payload_inj (hdigest : ∀ bytes, ChecksumLength ≤ (Crypto.fastHash bytes).length)
    {data data' rest rest' : ByteStr} (hlength : data.length = data'.length)
    (h : payload data ++ rest = payload data' ++ rest') : data = data' := by
  unfold payload at h
  by_cases hempty : data = []
  · rw [hempty, List.length_nil] at hlength
    rw [hempty, List.length_eq_zero_iff.mp hlength.symm]
  · have hempty' : data' ≠ [] := by
      rintro rfl
      exact hempty (List.length_eq_zero_iff.mp hlength)
    rw [if_neg hempty, if_neg hempty', List.append_assoc, List.append_assoc] at h
    -- the checksums are of one length, whatever they are
    have hdata := (List.append_inj h (by rw [length_checksum hdigest, length_checksum hdigest])).2
    exact (List.append_inj hdata hlength).1

/-- No two messages start alike on the wire. -/
theorem encode_inj (hdigest : ∀ bytes, ChecksumLength ≤ (Crypto.fastHash bytes).length)
    {msg msg' : RawBytes} {rest rest' : ByteStr} (h : msg.data.length < 2 ^ 31)
    (h' : msg'.data.length < 2 ^ 31) (heq : encode msg ++ rest = encode msg' ++ rest') :
    msg = msg' := by
  obtain ⟨code, data⟩ := msg
  obtain ⟨code', data'⟩ := msg'
  rw [encode_eq, encode_eq] at heq
  simp only [List.append_assoc, List.append_cancel_left_eq, List.cons_append, List.nil_append,
    List.cons.injEq] at heq
  obtain ⟨rfl, heq⟩ := heq
  -- the length comes first, and says where the bytes end
  obtain ⟨hnumber, hpayload⟩ := List.append_inj heq (by simp)
  have hlength := Ints.toByteArray_inj h h' hnumber
  exact congrArg (RawBytes.mk code) (payload_inj hdigest hlength hpayload)

/-! ## 3. A connection -/

/-- The codec of a connection: its cache, what it passed on, and why the peer was blacklisted. -/
structure Connection where
  receivedTxsCache : Finset ByteStr
  out : List RawBytes
  blacklisted : List String

inductive Event
  | decode (in_ : ByteBuffer)
  /-- The cache forgets a digest. -/
  | expired (rawChecksum : ByteStr)

namespace Connection

def init : Connection := ⟨∅, [], []⟩

def step (c : Connection) : Event → Connection
  | .decode in_ =>
    match LegacyFrameCodec.decode c.receivedTxsCache in_ with
    | .ok (decoded, _) =>
      { c with receivedTxsCache := decoded.1, out := c.out ++ decoded.2.toList }
    | .error e =>
      { c with blacklisted := c.blacklisted ++ [s!"Malformed network message: {e}"] }
  | .expired rawChecksum =>
    { c with receivedTxsCache := c.receivedTxsCache.erase rawChecksum }

/-- The connection after some events. -/
def run (events : List Event) : Connection := EventRun.after step init events

/-- At the place of the next read stands the frame of a message. -/
def Receives (e : Event) (msg : RawBytes) : Prop :=
  ∃ in_ rest, e = .decode in_ ∧ Valid msg ∧ in_.array.drop in_.position = encode msg ++ rest

/-- A transaction with the digest was received, and the digest has not been forgotten since. -/
def Known (past : List Event) (rawChecksum : ByteStr) : Prop :=
  ∃ before e msg after, past = before ++ e :: after ∧ Receives e msg ∧ IsTransaction msg ∧
    Crypto.fastHash msg.data = rawChecksum ∧ .expired rawChecksum ∉ after

theorem known_nil {rawChecksum : ByteStr} : ¬Known [] rawChecksum := by
  rintro ⟨before, e, msg, after, hpast, -⟩
  simp at hpast

theorem known_concat {past : List Event} {e : Event} {rawChecksum : ByteStr} :
    Known (past ++ [e]) rawChecksum ↔
      (∃ msg, Receives e msg ∧ IsTransaction msg ∧ Crypto.fastHash msg.data = rawChecksum) ∨
        Known past rawChecksum ∧ e ≠ .expired rawChecksum := by
  constructor
  · rintro ⟨before, e', msg, after, hpast, hreceives, htransaction, hdigest, hafter⟩
    -- it was the last event, or one before it
    rcases List.eq_nil_or_concat after with rfl | ⟨front, last, rfl⟩
    · obtain ⟨rfl, hlast⟩ := List.append_inj' hpast rfl
      obtain rfl := List.singleton_inj.mp hlast
      exact .inl ⟨msg, hreceives, htransaction, hdigest⟩
    · have hpast' : past ++ [e] = (before ++ e' :: front) ++ [last] := by simpa using hpast
      obtain ⟨rfl, hlast⟩ := List.append_inj' hpast' rfl
      obtain rfl := List.singleton_inj.mp hlast
      simp only [List.concat_eq_append, List.mem_append, List.mem_singleton, not_or] at hafter
      exact .inr ⟨⟨before, e', msg, front, rfl, hreceives, htransaction, hdigest, hafter.1⟩,
        Ne.symm hafter.2⟩
  · rintro (⟨msg, hreceives, htransaction, hdigest⟩ | ⟨hknown, hne⟩)
    · exact ⟨past, e, msg, [], rfl, hreceives, htransaction, hdigest, List.not_mem_nil⟩
    · obtain ⟨before, e', msg, after, rfl, hreceives, htransaction, hdigest, hafter⟩ := hknown
      refine ⟨before, e', msg, after ++ [e], by simp, hreceives, htransaction, hdigest, ?_⟩
      simp [hafter, Ne.symm hne]

section
variable (hdigest : ∀ bytes, ChecksumLength ≤ (Crypto.fastHash bytes).length)
include hdigest

/-- A frame is received as its message. -/
theorem step_of_receives (c : Connection) {e : Event} {msg : RawBytes} (h : Receives e msg) :
    c.step e = { c with
      receivedTxsCache := (accept c.receivedTxsCache msg).1
      out := c.out ++ (accept c.receivedTxsCache msg).2.toList } := by
  obtain ⟨in_, rest, rfl, hvalid, hdrop⟩ := h
  have hdecode := (decode_eq_ok_iff hdigest c.receivedTxsCache in_.array in_.position _ _).mpr
    ⟨msg, rest, hvalid, hdrop, rfl, rfl⟩
  rw [step, hdecode]

/-- Anything else has the peer blacklisted. -/
theorem step_of_malformed (c : Connection) {in_ : ByteBuffer}
    (h : ∀ msg, ¬Receives (.decode in_) msg) :
    ∃ reason, c.step (.decode in_) = { c with blacklisted := c.blacklisted ++ [reason] } := by
  rw [step]
  cases hdecode : LegacyFrameCodec.decode c.receivedTxsCache in_ with
  | error e => exact ⟨_, rfl⟩
  | ok decoded =>
    obtain ⟨r, b'⟩ := decoded
    obtain ⟨msg, rest, hvalid, hdrop, -⟩ :=
      (decode_eq_ok_iff hdigest c.receivedTxsCache in_.array in_.position r b').mp hdecode
    exact absurd ⟨in_, rest, rfl, hvalid, hdrop⟩ (h msg)

/-- An event is the frame of one message at most. -/
theorem receives_unique {e : Event} {msg msg' : RawBytes} (h : Receives e msg)
    (h' : Receives e msg') : msg = msg' := by
  have hsame := (step_of_receives hdigest init h).symm.trans (step_of_receives hdigest init h')
  have hout := congrArg Connection.out hsame
  simpa [init, accept_snd] using hout

/-- **The cache** has the digests of the transactions that were received and not forgotten. -/
theorem mem_receivedTxsCache_run (past : List Event) (rawChecksum : ByteStr) :
    rawChecksum ∈ (run past).receivedTxsCache ↔ Known past rawChecksum := by
  unfold run
  induction past using List.reverseRecOn with
  | nil => simp [init, known_nil]
  | append_singleton past e ih =>
    rw [EventRun.after_concat, known_concat, ← ih]
    generalize EventRun.after step init past = c
    by_cases hreceives : ∃ msg, Receives e msg
    · -- a frame adds the digest of its message, if it is a transaction
      obtain ⟨msg, hmsg⟩ := hreceives
      have hne : e ≠ .expired rawChecksum := by
        obtain ⟨in_, rest, rfl, -⟩ := hmsg
        simp
      rw [step_of_receives hdigest c hmsg, mem_accept_fst, and_iff_left hne]
      refine or_congr_left ⟨fun h => ⟨msg, hmsg, h⟩, ?_⟩
      rintro ⟨msg', hmsg', h⟩
      rwa [receives_unique hdigest hmsg hmsg']
    · -- anything else adds nothing
      have hnone : ¬∃ msg, Receives e msg ∧ IsTransaction msg ∧
          Crypto.fastHash msg.data = rawChecksum := by
        rintro ⟨msg, hmsg, -⟩
        exact hreceives ⟨msg, hmsg⟩
      rw [or_iff_right hnone]
      cases e with
      | decode in_ =>
        obtain ⟨reason, hstep⟩ :=
          step_of_malformed hdigest c fun msg hmsg => hreceives ⟨msg, hmsg⟩
        rw [hstep]
        simp
      | expired forgotten =>
        simp only [step, Finset.mem_erase, ne_eq, Event.expired.injEq]
        rw [and_comm, eq_comm]

/-- In every run: a message is passed on when its frame is received, unless it is a transaction
of the old encoding with a digest that was received before and not forgotten since. Nothing
else is ever passed on, and nothing but what is no frame of a message has the peer
blacklisted. -/
theorem out_run (past : List Event) (e : Event) :
    (∀ msg, Receives e msg → (run (past ++ [e])).blacklisted = (run past).blacklisted ∧
      (IsTransaction msg ∧ Known past (Crypto.fastHash msg.data) →
        (run (past ++ [e])).out = (run past).out) ∧
      (¬(IsTransaction msg ∧ Known past (Crypto.fastHash msg.data)) →
        (run (past ++ [e])).out = (run past).out ++ [msg])) ∧
      ((∀ msg, ¬Receives e msg) → (run (past ++ [e])).out = (run past).out ∧
        ∀ in_, e = .decode in_ →
          ∃ reason, (run (past ++ [e])).blacklisted = (run past).blacklisted ++ [reason]) := by
  have hrun : run (past ++ [e]) = (run past).step e := EventRun.after_concat step init past e
  rw [hrun]
  refine ⟨?_, ?_⟩
  · intro msg hmsg
    rw [step_of_receives hdigest (run past) hmsg, ← mem_receivedTxsCache_run hdigest, accept_snd]
    refine ⟨rfl, ?_, ?_⟩
    · intro hknown
      simp [hknown]
    · intro hnew
      simp [hnew]
  · intro hnone
    cases e with
    | decode in_ =>
      obtain ⟨reason, hstep⟩ := step_of_malformed hdigest (run past) hnone
      rw [hstep]
      exact ⟨rfl, fun _ _ => ⟨reason, rfl⟩⟩
    | expired forgotten =>
      refine ⟨rfl, ?_⟩
      rintro in_ h
      cases h

end

end Connection

end

end LegacyFrameCodec

/-! ## 4. From message to message -/

namespace MessageCodec

open LegacyFrameCodec

def encode (c : Content) : RawBytes := ⟨c.kind.spec.messageCode, c.serializeData⟩

def kinds : List Kind :=
  [.GetPeers, .Peers, .GetSignatures, .Signatures, .GetBlock, .Score, .MicroBlockInv,
    .MicroBlockRequest]

/-- What `specsByCodes` makes of the bytes, for the kinds that are laid out. -/
def decode (msg : RawBytes) : Option (Except String Content) :=
  (kinds.find? fun k => k.spec.messageCode = msg.code).map (Kind.deserializeData msg.data)

theorem decode_encode (c : Content) :
    decode (encode c) = some (c.kind.deserializeData c.serializeData) := by
  have hkind : ∀ k : Kind, kinds.find? (fun k' => k'.spec.messageCode = k.spec.messageCode) =
      some k := by
    intro k
    cases k <;> decide
  rw [decode, encode, hkind]
  rfl

theorem specsByCodes_kind (k : Kind) : specsByCodes k.spec.messageCode = some k.spec := by
  cases k <;> decide

theorem not_isTransaction_encode (c : Content) : ¬IsTransaction (encode c) := by
  have hcode : ∀ k : Kind, k.spec.messageCode ≠ TransactionSpec.messageCode := by
    intro k
    cases k <;> decide
  exact fun h => hcode c.kind h.1

section
variable [Crypto]

/-- What both codecs make of what stands at a place, if they make something of it. -/
def received (receivedTxsCache : Finset ByteStr) (in_ : ByteBuffer) : Option Content := do
  let decoded ← (LegacyFrameCodec.decode receivedTxsCache in_).toOption
  let msg ← decoded.1.2
  let content ← decode msg
  content.toOption

end

end MessageCodec

/-! ## 5. A transaction that comes twice -/

namespace LegacyFrameCodec

/-- The digest of the byte five, and zeros for all else. -/
@[reducible] def fiveCrypto : Crypto where
  chainId := 84
  fastHash bytes :=
    if bytes = [5] then
      BigEndian.write 32 0xfb3d635c7cb573d1b9e9bff4a64ab4f25190d29b6fd8db94c605a218a23fa9ad
    else List.replicate 32 0
  secureHash _ := List.replicate 32 0
  verify _ _ _ := false
  isWeakPublicKey _ := false

local instance frameCrypto : Crypto := fiveCrypto

theorem checksumLength_le_fastHash (bytes : ByteStr) :
    ChecksumLength ≤ (Crypto.fastHash bytes).length := by
  change _ ≤ (if bytes = [5] then _ else _ : ByteStr).length
  split
  · rw [BigEndian.length_write]
    decide
  · rw [List.length_replicate]
    decide

def fiveMessage : RawBytes := ⟨TransactionSpec.messageCode, [5]⟩

def fiveFrame : ByteStr :=
  [0x12, 0x34, 0x56, 0x78, 25, 0, 0, 0, 1, -5, 61, 99, 92, 5]

theorem encode_fiveMessage : encode fiveMessage = fiveFrame := by decide

theorem decode_fiveFrame : decode ∅ ⟨fiveFrame, 0⟩ =
    .ok (accept ∅ fiveMessage, ⟨fiveFrame, fiveFrame.length⟩) :=
  (decode_eq_ok_iff checksumLength_le_fastHash ∅ fiveFrame 0 _ _).mpr
    ⟨fiveMessage, [], ⟨TransactionSpec, by decide, by decide⟩, by decide, rfl, by
      rw [encode_fiveMessage, Nat.zero_add]⟩

namespace Connection

theorem receives_fiveFrame : Receives (.decode ⟨fiveFrame, 0⟩) fiveMessage :=
  ⟨_, [], rfl, ⟨TransactionSpec, by decide, by decide⟩, by decide⟩

/-- The second one is dropped. -/
theorem out_run_fiveFrame :
    (run ([.decode ⟨fiveFrame, 0⟩] ++ [.decode ⟨fiveFrame, 0⟩])).out =
      (run [.decode ⟨fiveFrame, 0⟩]).out := by
  have hstep := out_run checksumLength_le_fastHash [.decode ⟨fiveFrame, 0⟩] (.decode ⟨fiveFrame, 0⟩)
  have htransaction : IsTransaction fiveMessage := by decide
  refine (hstep.1 fiveMessage receives_fiveFrame).2.1 ⟨htransaction, ?_⟩
  exact ⟨[], _, fiveMessage, [], rfl, receives_fiveFrame, htransaction, rfl, List.not_mem_nil⟩

end Connection

end LegacyFrameCodec

namespace MessageCodec

local instance messageCrypto : Crypto := LegacyFrameCodec.fiveCrypto

end MessageCodec

end WavesNode
