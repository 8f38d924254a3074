/-
Reading from a byte buffer.

A buffer is an array with a position. A reader takes what stands at the position and
moves it, or fails, as the virtual machine's buffers do: on underflow, on a negative
array size, on a requirement of its caller. Failures carry a text and nothing else.

For every primitive there is one inversion lemma, `…_eq_ok`: a read that answered
gave what stood at the position (`byteAt`, `shortAt`, `longAt`, `slice`) and moved it
by the width. `Reads` is what they compose to: a reader run from a place gives a value
and a next place, both known as functions of the array alone.
-/
import WavesNode.BigEndian
import Mathlib.Data.List.Iterate

set_option autoImplicit false

/-- An array and the position of the next read. -/
structure ByteBuffer where
  array : List Byte
  position : ℕ

namespace ByteBuffer

/-! ## 1. What stands in an array -/

/-- The bytes from `at_`, at most `len` of them. -/
def slice (l : List Byte) (at_ len : ℕ) : List Byte := (l.drop at_).take len

theorem length_slice {l : List Byte} {at_ len : ℕ} (h : at_ + len ≤ l.length) :
    (slice l at_ len).length = len := by
  rw [slice, List.length_take, List.length_drop]
  omega

def byteAt (l : List Byte) (at_ : ℕ) : Byte := l.getD at_ 0

/-- The bytes of a part are bytes of the array. -/
theorem slice_slice {l : List Byte} {at_ len at' len' : ℕ} (h : at' + len' ≤ len) :
    slice (slice l at_ len) at' len' = slice l (at_ + at') len' := by
  unfold slice
  rw [List.drop_take, List.drop_drop, List.take_take, min_eq_left (by omega)]

theorem byteAt_slice {l : List Byte} {at_ len at' : ℕ} (h : at' < len) :
    byteAt (slice l at_ len) at' = byteAt l (at_ + at') := by
  unfold byteAt slice
  rw [List.getD_eq_getElem?_getD, List.getElem?_take_of_lt h, List.getElem?_drop,
    List.getD_eq_getElem?_getD]

/-- The signed 16-bit word at a place. -/
def shortAt (l : List Byte) (at_ : ℕ) : ℤ := (Int16.ofNat (BigEndian.read (slice l at_ 2))).toInt

theorem shortAt_le (l : List Byte) (at_ : ℕ) : shortAt l at_ ≤ 32767 := by
  have hlt := Int16.toInt_lt (Int16.ofNat (BigEndian.read (slice l at_ 2)))
  unfold shortAt
  omega

/-- The signed 32-bit word at a place. -/
def intAt (l : List Byte) (at_ : ℕ) : ℤ := (Int32.ofNat (BigEndian.read (slice l at_ 4))).toInt

def longAt (l : List Byte) (at_ : ℕ) : Long := Longs.fromByteArray (slice l at_ 8)

/-- The buffer `n` bytes on. -/
def advance (b : ByteBuffer) (n : ℕ) : ByteBuffer := { b with position := b.position + n }

@[simp] theorem advance_array (b : ByteBuffer) (n : ℕ) : (b.advance n).array = b.array := rfl

@[simp] theorem advance_position (b : ByteBuffer) (n : ℕ) :
    (b.advance n).position = b.position + n := rfl

@[simp] theorem advance_advance (b : ByteBuffer) (m n : ℕ) :
    (b.advance m).advance n = b.advance (m + n) := by
  simp [advance, Nat.add_assoc]

/-- `remaining()`. -/
def remaining (b : ByteBuffer) : ℕ := b.array.length - b.position

/-! ## 2. Readers -/

/-- A computation that reads a buffer and may fail with a text. -/
abbrev Reader (α : Type) := StateT ByteBuffer (Except String) α

variable {α β : Type}

/-- Read an array from an offset on, as `wrap(bytes, offset, length - offset)` does. -/
def Reader.from (r : Reader α) (array : List Byte) (offset : ℕ) : Except String α :=
  if offset ≤ array.length then (r ⟨array, offset⟩).map Prod.fst
  else .error "IndexOutOfBoundsException"

/-- `require(condition, message)`. -/
def require (condition : Bool) (message : String) : Reader Unit :=
  if condition then pure () else throw s!"requirement failed: {message}"

def getArray (n : ℕ) : Reader (List Byte) := fun b =>
  if b.position + n ≤ b.array.length then .ok (slice b.array b.position n, b.advance n)
  else .error "BufferUnderflowException"

/-- An array whose size was itself read. -/
def getByteArray (size : ℤ) : Reader (List Byte) :=
  if size < 0 then throw "NegativeArraySizeException" else getArray size.toNat

def get : Reader Byte := fun b =>
  if b.position < b.array.length then .ok (byteAt b.array b.position, b.advance 1)
  else .error "BufferUnderflowException"

/-- A word of `width` bytes, decoded. -/
def getWord (width : ℕ) (decode : List Byte → α) : Reader α := decode <$> getArray width

def getShort : Reader ℤ := getWord 2 fun bytes => (Int16.ofNat (BigEndian.read bytes)).toInt

def getInt : Reader ℤ := getWord 4 fun bytes => (Int32.ofNat (BigEndian.read bytes)).toInt

def getLong : Reader Long := getWord 8 Longs.fromByteArray

/-- `get(position + ahead)`, which moves nothing. -/
def peek (ahead : ℕ) : Reader Byte := fun b =>
  if b.position + ahead < b.array.length then .ok (byteAt b.array (b.position + ahead), b)
  else .error "IndexOutOfBoundsException"

/-- `getShort(position + ahead)`, which moves nothing. -/
def peekShort (ahead : ℕ) : Reader ℤ := fun b =>
  if b.position + ahead + 2 ≤ b.array.length then .ok (shortAt b.array (b.position + ahead), b)
  else .error "IndexOutOfBoundsException"

/-- `Vector.fill(n)(r)`. -/
def fill (r : Reader α) : ℕ → Reader (List α)
  | 0 => pure []
  | n + 1 => do
    let a ← r
    let rest ← fill r n
    pure (a :: rest)

/-! ## 3. Inversion -/

variable {b b' : ByteBuffer}

theorem bind_eq_ok {x : Reader α} {f : α → Reader β} {r : β × ByteBuffer} :
    (x >>= f) b = .ok r ↔ ∃ a b', x b = .ok (a, b') ∧ f a b' = .ok r := by
  change (x b >>= fun p => f p.1 p.2) = .ok r ↔ _
  cases hx : x b with
  | error e => simp [bind, Except.bind]
  | ok p =>
    constructor
    · exact fun h => ⟨p.1, p.2, rfl, h⟩
    · rintro ⟨a, b', ha, h⟩
      cases ha
      exact h

@[simp] theorem pure_eq_ok {a : α} {r : α × ByteBuffer} :
    (pure a : Reader α) b = .ok r ↔ r = (a, b) := by
  change (Except.ok (a, b) : Except String _) = .ok r ↔ _
  simp [eq_comm]

@[simp] theorem throw_ne_ok {m : String} {r : α × ByteBuffer} :
    (throw m : Reader α) b ≠ .ok r := by
  change (Except.error m : Except String _) ≠ .ok r
  simp

theorem map_eq_ok {x : Reader α} {f : α → β} {r : β × ByteBuffer} :
    (f <$> x) b = .ok r ↔ ∃ a, x b = .ok (a, r.2) ∧ f a = r.1 := by
  rw [map_eq_pure_bind, bind_eq_ok]
  constructor
  · rintro ⟨a, b', ha, h⟩
    obtain rfl := pure_eq_ok.mp h
    exact ⟨a, ha, rfl⟩
  · rintro ⟨a, ha, h⟩
    exact ⟨a, r.2, ha, pure_eq_ok.mpr (by rw [h])⟩

@[simp] theorem require_eq_ok {c : Bool} {m : String} {r : Unit × ByteBuffer} :
    require c m b = .ok r ↔ c = true ∧ r = ((), b) := by
  unfold require
  cases c <;> simp

theorem from_eq_ok {r : Reader α} {array : List Byte} {offset : ℕ} {a : α} :
    r.from array offset = .ok a ↔
      offset ≤ array.length ∧ ∃ b', r ⟨array, offset⟩ = .ok (a, b') := by
  unfold Reader.from
  by_cases h : offset ≤ array.length
  · rw [if_pos h]
    cases hr : r ⟨array, offset⟩ with
    | error e => simp [Except.map]
    | ok p => simp [Except.map, h, Prod.ext_iff]
  · simp [h]

theorem getArray_eq_ok {n : ℕ} {r : List Byte × ByteBuffer} :
    getArray n b = .ok r ↔
      b.position + n ≤ b.array.length ∧ r = (slice b.array b.position n, b.advance n) := by
  unfold getArray
  split <;> rename_i h <;> simp [h, eq_comm]

theorem getByteArray_eq_ok {size : ℤ} {r : List Byte × ByteBuffer} :
    getByteArray size b = .ok r ↔ 0 ≤ size ∧ getArray size.toNat b = .ok r := by
  unfold getByteArray
  by_cases h : size < 0
  · simp [h]
  · simp [h, not_lt.mp h]

theorem get_eq_ok {r : Byte × ByteBuffer} :
    get b = .ok r ↔
      b.position < b.array.length ∧ r = (byteAt b.array b.position, b.advance 1) := by
  unfold get
  split <;> rename_i h <;> simp [h, eq_comm]

theorem getWord_eq_ok {width : ℕ} {decode : List Byte → α} {r : α × ByteBuffer} :
    getWord width decode b = .ok r ↔ b.position + width ≤ b.array.length ∧
      r = (decode (slice b.array b.position width), b.advance width) := by
  unfold getWord
  rw [map_eq_ok]
  constructor
  · rintro ⟨bytes, h, hr⟩
    obtain ⟨hle, h⟩ := getArray_eq_ok.mp h
    obtain ⟨rfl, hb⟩ := Prod.mk.inj h
    exact ⟨hle, Prod.ext hr.symm hb⟩
  · rintro ⟨hle, rfl⟩
    exact ⟨_, getArray_eq_ok.mpr ⟨hle, rfl⟩, rfl⟩

theorem getShort_eq_ok {r : ℤ × ByteBuffer} :
    getShort b = .ok r ↔
      b.position + 2 ≤ b.array.length ∧ r = (shortAt b.array b.position, b.advance 2) :=
  getWord_eq_ok

theorem getInt_eq_ok {r : ℤ × ByteBuffer} :
    getInt b = .ok r ↔
      b.position + 4 ≤ b.array.length ∧ r = (intAt b.array b.position, b.advance 4) :=
  getWord_eq_ok

theorem getLong_eq_ok {r : Long × ByteBuffer} :
    getLong b = .ok r ↔
      b.position + 8 ≤ b.array.length ∧ r = (longAt b.array b.position, b.advance 8) :=
  getWord_eq_ok

theorem peek_eq_ok {ahead : ℕ} {r : Byte × ByteBuffer} :
    peek ahead b = .ok r ↔
      b.position + ahead < b.array.length ∧ r = (byteAt b.array (b.position + ahead), b) := by
  unfold peek
  split <;> rename_i h <;> simp [h, eq_comm]

theorem peekShort_eq_ok {ahead : ℕ} {r : ℤ × ByteBuffer} :
    peekShort ahead b = .ok r ↔
      b.position + ahead + 2 ≤ b.array.length ∧
        r = (shortAt b.array (b.position + ahead), b) := by
  unfold peekShort
  split <;> rename_i h <;> simp [h, eq_comm]

/-! ## 4. What a reader reads from a place

The rule for a chain is `Reads.bind`: what the first part leaves is where the second
starts. -/

/-- A run of `r` from the place `p` of `l` that answers gives a value and a place of the
same array that `Q` holds of. -/
def Reads (r : Reader α) (l : List Byte) (p : ℕ) (Q : α → ℕ → Prop) : Prop :=
  ∀ a b', r ⟨l, p⟩ = .ok (a, b') → b'.array = l ∧ Q a b'.position

section
variable {l : List Byte} {p : ℕ} {r : Reader α} {Q : α → ℕ → Prop}

theorem Reads.bind {f : α → Reader β} {R : β → ℕ → Prop} (h : Reads r l p Q)
    (hf : ∀ a q, Q a q → Reads (f a) l q R) : Reads (r >>= f) l p R := by
  intro c b' hc
  obtain ⟨a, b₁, ha, hc⟩ := bind_eq_ok.mp hc
  obtain ⟨harray, hQ⟩ := h a b₁ ha
  refine hf a b₁.position hQ c b' ?_
  rw [← harray]
  exact hc

theorem Reads.pure {a : α} (h : Q a p) : Reads (pure a) l p Q := by
  intro a' b' ha
  obtain ⟨rfl, rfl⟩ := Prod.mk.inj (pure_eq_ok.mp ha)
  exact ⟨rfl, h⟩

theorem Reads.throw {m : String} : Reads (throw m) l p Q := by
  intro a b' h
  exact absurd h throw_ne_ok

theorem Reads.mono {R : α → ℕ → Prop} (h : Reads r l p Q) (hQR : ∀ a q, Q a q → R a q) :
    Reads r l p R := by
  intro a b' ha
  obtain ⟨harray, hQ⟩ := h a b' ha
  exact ⟨harray, hQR _ _ hQ⟩

theorem Reads.map {f : α → β} {R : β → ℕ → Prop} (h : Reads r l p Q)
    (hf : ∀ a q, Q a q → R (f a) q) : Reads (f <$> r) l p R := by
  rw [map_eq_pure_bind]
  exact h.bind fun a q hQ => .pure (hf a q hQ)

/-- In each branch the condition is known. -/
theorem Reads.ite {r' : Reader α} {c : Prop} [Decidable c] (h : c → Reads r l p Q)
    (h' : ¬c → Reads r' l p Q) : Reads (if c then r else r') l p Q := by
  by_cases hc : c
  · rw [if_pos hc]
    exact h hc
  · rw [if_neg hc]
    exact h' hc

theorem reads_require {c : Bool} {m : String} :
    Reads (require c m) l p fun _ q => c = true ∧ q = p := by
  intro a b' h
  obtain ⟨hc, h⟩ := require_eq_ok.mp h
  obtain ⟨-, rfl⟩ := Prod.mk.inj h
  exact ⟨rfl, hc, rfl⟩

theorem Reads.of_from {a : α} (h : Reads r l p Q) (ha : r.from l p = .ok a) : ∃ q, Q a q := by
  obtain ⟨-, b', ha⟩ := from_eq_ok.mp ha
  exact ⟨b'.position, (h a b' ha).2⟩

theorem reads_getArray {n : ℕ} :
    Reads (getArray n) l p fun a q => a = slice l p n ∧ a.length = n ∧ q = p + n := by
  intro a b' h
  obtain ⟨hle, h⟩ := getArray_eq_ok.mp h
  obtain ⟨rfl, rfl⟩ := Prod.mk.inj h
  exact ⟨rfl, rfl, length_slice hle, rfl⟩

theorem reads_getByteArray {size : ℤ} : Reads (getByteArray size) l p fun a q => 0 ≤ size ∧
    a = slice l p size.toNat ∧ a.length = size.toNat ∧ q = p + size.toNat := by
  intro a b' h
  obtain ⟨hsize, h⟩ := getByteArray_eq_ok.mp h
  obtain ⟨harray, h⟩ := reads_getArray a b' h
  exact ⟨harray, hsize, h⟩

theorem reads_get : Reads get l p fun a q => a = byteAt l p ∧ q = p + 1 := by
  intro a b' h
  obtain ⟨-, h⟩ := get_eq_ok.mp h
  obtain ⟨rfl, rfl⟩ := Prod.mk.inj h
  exact ⟨rfl, rfl, rfl⟩

theorem reads_getShort : Reads getShort l p fun a q => a = shortAt l p ∧ q = p + 2 := by
  intro a b' h
  obtain ⟨-, h⟩ := getShort_eq_ok.mp h
  obtain ⟨rfl, rfl⟩ := Prod.mk.inj h
  exact ⟨rfl, rfl, rfl⟩

theorem reads_getInt : Reads getInt l p fun a q => a = intAt l p ∧ q = p + 4 := by
  intro a b' h
  obtain ⟨-, h⟩ := getInt_eq_ok.mp h
  obtain ⟨rfl, rfl⟩ := Prod.mk.inj h
  exact ⟨rfl, rfl, rfl⟩

theorem reads_getLong : Reads getLong l p fun a q => a = longAt l p ∧ q = p + 8 := by
  intro a b' h
  obtain ⟨-, h⟩ := getLong_eq_ok.mp h
  obtain ⟨rfl, rfl⟩ := Prod.mk.inj h
  exact ⟨rfl, rfl, rfl⟩

theorem reads_peek {ahead : ℕ} :
    Reads (peek ahead) l p fun a q => a = byteAt l (p + ahead) ∧ q = p := by
  intro a b' h
  obtain ⟨-, h⟩ := peek_eq_ok.mp h
  obtain ⟨rfl, rfl⟩ := Prod.mk.inj h
  exact ⟨rfl, rfl, rfl⟩

theorem reads_peekShort {ahead : ℕ} :
    Reads (peekShort ahead) l p fun a q => a = shortAt l (p + ahead) ∧ q = p := by
  intro a b' h
  obtain ⟨-, h⟩ := peekShort_eq_ok.mp h
  obtain ⟨rfl, rfl⟩ := Prod.mk.inj h
  exact ⟨rfl, rfl, rfl⟩

/-- `n` reads one after another: each starts where the one before it stopped. -/
theorem Reads.fill {f : α → β} {g : ℕ → β} {next : ℕ → ℕ}
    (h : ∀ p, Reads r l p fun a q => f a = g p ∧ q = next p) (n p : ℕ) :
    Reads (ByteBuffer.fill r n) l p fun as q =>
      as.map f = (List.iterate next p n).map g ∧ q = next^[n] p := by
  induction n generalizing p with
  | zero => exact .pure ⟨rfl, rfl⟩
  | succ n ih =>
    refine (h p).bind ?_
    rintro a q ⟨ha, rfl⟩
    refine (ih (next p)).bind ?_
    rintro rest q ⟨hrest, rfl⟩
    refine .pure ⟨?_, rfl⟩
    rw [List.map_cons, ha, hrest, List.iterate, List.map_cons]

theorem Reads.fill_forall {P : α → Prop} (h : ∀ p, Reads r l p fun a _ => P a) (n p : ℕ) :
    Reads (ByteBuffer.fill r n) l p fun as _ => ∀ a ∈ as, P a := by
  induction n generalizing p with
  | zero => exact .pure (by simp)
  | succ n ih =>
    refine (h p).bind fun a q ha => (ih q).bind fun rest _ hrest => .pure ?_
    exact List.forall_mem_cons.mpr ⟨ha, hrest⟩

theorem Reads.and {R : α → ℕ → Prop} (hQ : Reads r l p Q) (hR : Reads r l p R) :
    Reads r l p fun a q => Q a q ∧ R a q := by
  intro a b' ha
  obtain ⟨harray, hQ⟩ := hQ a b' ha
  exact ⟨harray, hQ, (hR a b' ha).2⟩

/-- A reader that reads something reads what its own run gives. -/
theorem Reads.self (h : Reads r l p Q) :
    Reads r l p fun a q => r ⟨l, p⟩ = .ok (a, ⟨l, q⟩) := by
  intro a b' ha
  obtain ⟨rfl, -⟩ := h a b' ha
  exact ⟨rfl, ha⟩

/-- A condition on whatever a run gives is a condition on what it gave. -/
theorem forall_run_iff {a : α} {q : ℕ} {C : α → ℕ → Prop} (hrun : r ⟨l, p⟩ = .ok (a, ⟨l, q⟩)) :
    (∀ a' next, r ⟨l, p⟩ = .ok (a', next) → C a' next.position) ↔ C a q := by
  constructor
  · intro h
    exact h a ⟨l, q⟩ hrun
  · intro h a' next hnext
    obtain ⟨rfl, rfl⟩ := Prod.mk.inj (Except.ok.inj (hrun.symm.trans hnext))
    exact h

theorem reads_getThe :
    Reads (getThe ByteBuffer) l p fun a q => a = ⟨l, p⟩ ∧ q = p := by
  intro a b' h
  cases h
  exact ⟨rfl, rfl, rfl⟩

end

/-- A reader that never leaves its array, whatever it reads. -/
def Stays (r : Reader α) : Prop := ∀ l p, Reads r l p fun _ _ => True

section
variable {r : Reader α}

theorem Stays.of_reads {Q : List Byte → ℕ → α → ℕ → Prop} (h : ∀ l p, Reads r l p (Q l p)) :
    Stays r :=
  fun l p => (h l p).mono fun _ _ _ => trivial

theorem Stays.bind {f : α → Reader β} (h : Stays r) (hf : ∀ a, Stays (f a)) :
    Stays (r >>= f) :=
  fun l p => (h l p).bind fun a q _ => hf a l q

theorem Stays.pure (a : α) : Stays (pure a) := fun _ _ => .pure trivial

theorem Stays.throw (m : String) : Stays (throw m : Reader α) := fun _ _ => .throw

theorem Stays.map {f : α → β} (h : Stays r) : Stays (f <$> r) :=
  fun l p => (h l p).map fun _ _ _ => trivial

theorem Stays.fill (h : Stays r) (n : ℕ) : Stays (ByteBuffer.fill r n) :=
  fun l p => (Reads.fill_forall (h l) n p).mono fun _ _ _ => trivial

theorem Stays.ite {r' : Reader α} {c : Prop} [Decidable c] (h : Stays r) (h' : Stays r') :
    Stays (if c then r else r') := by
  split_ifs
  · exact h
  · exact h'

theorem Stays.getByteArray (size : ℤ) : Stays (ByteBuffer.getByteArray size) :=
  .of_reads fun _ _ => reads_getByteArray

theorem Stays.get : Stays ByteBuffer.get := .of_reads fun _ _ => reads_get

theorem Stays.getShort : Stays ByteBuffer.getShort := .of_reads fun _ _ => reads_getShort

theorem Stays.getInt : Stays ByteBuffer.getInt := .of_reads fun _ _ => reads_getInt

theorem Stays.getLong : Stays ByteBuffer.getLong := .of_reads fun _ _ => reads_getLong

theorem Stays.getThe : Stays (getThe ByteBuffer) := .of_reads fun _ _ => reads_getThe

theorem Stays.peek (ahead : ℕ) : Stays (ByteBuffer.peek ahead) := .of_reads fun _ _ => reads_peek

theorem Stays.require (c : Bool) (m : String) : Stays (ByteBuffer.require c m) :=
  .of_reads fun _ _ => reads_require

end

/-! ## 5. What was written is read -/

/-- Wherever these bytes stand, the reader takes them, no more and no less, and gives `a`. -/
def Takes (r : Reader α) (bytes : List Byte) (a : α) : Prop :=
  ∀ before after, r ⟨before ++ (bytes ++ after), before.length⟩ =
    .ok (a, ⟨before ++ (bytes ++ after), before.length + bytes.length⟩)

section

variable {r : Reader α} {bytes : List Byte} {a : α}

theorem Takes.bind {f : α → Reader β} {bytes' : List Byte} {c : β} (h : Takes r bytes a)
    (hf : Takes (f a) bytes' c) : Takes (r >>= f) (bytes ++ bytes') c := by
  intro before after
  refine bind_eq_ok.mpr ⟨a, ⟨before ++ (bytes ++ bytes' ++ after),
    before.length + bytes.length⟩, ?_, ?_⟩
  · have hfirst := h before (bytes' ++ after)
    rwa [← List.append_assoc bytes] at hfirst
  · have hsecond := hf (before ++ bytes) after
    rw [List.append_assoc, List.length_append, ← List.append_assoc bytes] at hsecond
    rw [List.length_append, ← Nat.add_assoc]
    exact hsecond

theorem Takes.pure (a : α) : Takes (pure a) [] a := fun _ _ => rfl

theorem Takes.map {f : α → β} (h : Takes r bytes a) : Takes (f <$> r) bytes (f a) := by
  rw [map_eq_pure_bind]
  have hbind := h.bind (f := fun x => Pure.pure (f x)) (Takes.pure (f a))
  rwa [List.append_nil] at hbind

/-- The last part of a chain may take nothing. -/
theorem Takes.bind_nil {f : α → Reader β} {c : β} (h : Takes r bytes a) (hf : Takes (f a) [] c) :
    Takes (r >>= f) bytes c := by
  have hbind := h.bind hf
  rwa [List.append_nil] at hbind

/-- So may the first. -/
theorem Takes.nil_bind {f : α → Reader β} {c : β} (h : Takes r [] a) (hf : Takes (f a) bytes c) :
    Takes (r >>= f) bytes c :=
  h.bind hf

/-- A requirement that holds takes nothing. -/
theorem takes_require {c : Bool} {m : String} (hc : c = true) : Takes (require c m) [] () := by
  intro before after
  exact require_eq_ok.mpr ⟨hc, rfl⟩

/-- A look at the buffer takes nothing; at least what is taken next remains. -/
theorem takes_getThe {f : ByteBuffer → Reader α}
    (hf : ∀ b : ByteBuffer, bytes.length ≤ b.remaining → Takes (f b) bytes a) :
    Takes (getThe ByteBuffer >>= f) bytes a := by
  intro before after
  refine bind_eq_ok.mpr ⟨_, _, rfl, ?_⟩
  refine hf _ ?_ before after
  dsimp only [remaining]
  rw [List.length_append, List.length_append]
  omega

theorem slice_append (before bytes after : List Byte) :
    slice (before ++ (bytes ++ after)) before.length bytes.length = bytes := by
  rw [slice, List.drop_left, List.take_left]

theorem takes_getArray (bytes : List Byte) : Takes (getArray bytes.length) bytes bytes := by
  intro before after
  refine getArray_eq_ok.mpr ⟨?_, ?_⟩
  · dsimp only
    rw [List.length_append, List.length_append]
    omega
  · exact Prod.ext (slice_append before bytes after).symm rfl

theorem takes_getByteArray {size : ℤ} (h : size = bytes.length) :
    Takes (getByteArray size) bytes bytes := by
  intro before after
  have hsize : size.toNat = bytes.length := by omega
  refine getByteArray_eq_ok.mpr ⟨by omega, ?_⟩
  rw [hsize]
  exact takes_getArray bytes before after

theorem takes_get (x : Byte) : Takes get [x] x := by
  intro before after
  refine get_eq_ok.mpr ⟨?_, ?_⟩
  · dsimp only
    rw [List.length_append, List.length_append, List.length_singleton]
    omega
  · refine Prod.ext ?_ rfl
    change x = (before ++ ([x] ++ after)).getD before.length 0
    rw [List.getD_eq_getElem?_getD, List.getElem?_append_right (Nat.le_refl _), Nat.sub_self]
    rfl

theorem takes_getWord (decode : List Byte → α) (bytes : List Byte) :
    Takes (getWord bytes.length decode) bytes (decode bytes) :=
  (takes_getArray bytes).map

theorem takes_getLong (x : Long) : Takes getLong (Longs.toByteArray x) x := by
  have h := takes_getWord Longs.fromByteArray (Longs.toByteArray x)
  rwa [Longs.length_toByteArray, Longs.fromByteArray_toByteArray] at h

theorem takes_getInt {n : ℕ} (hn : n < 2 ^ 31) : Takes getInt (Ints.toByteArray n) (n : ℤ) := by
  have h := takes_getWord (fun bytes => (Int32.ofNat (BigEndian.read bytes)).toInt)
    (Ints.toByteArray n)
  have hread : (Int32.ofNat (BigEndian.read (Ints.toByteArray n))).toInt = n := by
    rw [Ints.toByteArray, BigEndian.read_write, Nat.mod_eq_of_lt (by omega),
      Int32.toInt_ofNat_of_lt hn]
  rwa [Ints.toByteArray, BigEndian.length_write, ← Ints.toByteArray, hread] at h

theorem takes_getShort (n : Int16) :
    Takes getShort (Shorts.toByteArray n.toUInt16.toNat) n.toInt := by
  have h := takes_getWord (fun bytes => (Int16.ofNat (BigEndian.read bytes)).toInt)
    (Shorts.toByteArray n.toUInt16.toNat)
  have hread : Int16.ofNat (BigEndian.read (Shorts.toByteArray n.toUInt16.toNat)) = n := by
    have hlt : n.toUInt16.toNat < 256 ^ 2 := n.toUInt16.toNat_lt
    rw [Shorts.toByteArray, BigEndian.read_write, Nat.mod_eq_of_lt hlt, ← UInt16.toInt16_ofNat',
      UInt16.ofNat_toNat, Int16.toInt16_toUInt16]
  rwa [Shorts.length_toByteArray, hread] at h

/-- A length that fits. -/
theorem takes_getLength {n : ℕ} (hn : n < 2 ^ 15) :
    Takes getShort (Shorts.toByteArray n) (n : ℤ) := by
  have h := takes_getShort (Int16.ofNat n)
  have hvalue : (Int16.ofNat n).toUInt16.toNat = n := by
    rw [← UInt16.toInt16_ofNat', UInt16.toUInt16_toInt16, UInt16.toNat_ofNat',
      Nat.mod_eq_of_lt (by omega)]
  rwa [hvalue, Int16.toInt_ofNat_of_lt hn] at h

end

/-- A list is read as it was written, if its elements are. -/
theorem Takes.fill {r : Reader α} {write : α → List Byte} {as : List α}
    (h : ∀ a ∈ as, Takes r (write a) a) :
    Takes (ByteBuffer.fill r as.length) (as.flatMap write) as := by
  induction as with
  | nil => exact .pure []
  | cons a as ih =>
    have hrest := ih fun a' ha' => h a' (List.mem_cons_of_mem _ ha')
    have htail : Takes (ByteBuffer.fill r as.length >>= fun rest => Pure.pure (a :: rest))
        (as.flatMap write ++ []) (a :: as) := hrest.bind (Takes.pure (a :: as))
    rw [List.append_nil] at htail
    exact Takes.bind (f := fun a => ByteBuffer.fill r as.length >>= fun rest =>
      Pure.pure (a :: rest)) (h a List.mem_cons_self) htail

/-! ## 6. Readers that go on

A reader that calls itself has some fuel, and each call is a byte further on. What remains is
then fuel enough, however much there is: two readers that agree wherever as much remains agree
in a chain too, if no part of the chain goes back. -/

/-- A reader that never goes back. -/
def Onward (r : Reader α) : Prop := ∀ l p, Reads r l p fun _ q => p ≤ q

theorem Onward.bind {r : Reader α} {f : α → Reader β} (h : Onward r) (hf : ∀ a, Onward (f a)) :
    Onward (r >>= f) := by
  intro l p
  refine (h l p).bind fun a q hq => ?_
  exact (hf a l q).mono fun _ q' hq' => Nat.le_trans hq hq'

theorem Onward.pure (a : α) : Onward (pure a) := fun _ p => .pure (Nat.le_refl p)

theorem Onward.throw (m : String) : Onward (throw m : Reader α) := fun _ _ => .throw

theorem Onward.map {r : Reader α} {f : α → β} (h : Onward r) : Onward (f <$> r) :=
  fun l p => (h l p).map fun _ _ hq => hq

theorem Onward.ite {r r' : Reader α} {c : Prop} [Decidable c] (h : Onward r) (h' : Onward r') :
    Onward (if c then r else r') := by
  split_ifs
  · exact h
  · exact h'

theorem Onward.fill {r : Reader α} (h : Onward r) : ∀ n, Onward (ByteBuffer.fill r n)
  | 0 => .pure []
  | n + 1 => h.bind fun _ => (Onward.fill h n).bind fun _ => .pure _

theorem Onward.lift (x : Except String α) : Onward (StateT.lift x) := by
  cases x with
  | error m => exact Onward.throw m
  | ok a => exact Onward.pure a

theorem Onward.get : Onward ByteBuffer.get := fun _ _ => reads_get.mono fun _ _ h => by omega

theorem Onward.getShort : Onward ByteBuffer.getShort :=
  fun _ _ => reads_getShort.mono fun _ _ h => by omega

theorem Onward.getInt : Onward ByteBuffer.getInt :=
  fun _ _ => reads_getInt.mono fun _ _ h => by omega

theorem Onward.getLong : Onward ByteBuffer.getLong :=
  fun _ _ => reads_getLong.mono fun _ _ h => by omega

theorem Onward.getByteArray (size : ℤ) : Onward (ByteBuffer.getByteArray size) :=
  fun _ _ => reads_getByteArray.mono fun _ _ h => by omega

theorem Onward.getThe : Onward (getThe ByteBuffer) :=
  fun _ _ => reads_getThe.mono fun _ _ h => by omega

theorem Onward.require (c : Bool) (m : String) : Onward (ByteBuffer.require c m) :=
  fun _ _ => reads_require.mono fun _ _ h => by omega

/-- Two readers that agree wherever at most `k` bytes remain. -/
def Agree (k : ℕ) (r r' : Reader α) : Prop := ∀ b : ByteBuffer, b.remaining ≤ k → r b = r' b

section

variable {k : ℕ}

theorem Agree.refl (r : Reader α) : Agree k r r := fun _ _ => rfl

theorem Agree.bind {r r' : Reader α} {f f' : α → Reader β} (h : Agree k r r') (hr : Onward r)
    (hf : ∀ a, Agree k (f a) (f' a)) : Agree k (r >>= f) (r' >>= f') := by
  intro b hb
  change (r b >>= fun p => f p.1 p.2) = (r' b >>= fun p => f' p.1 p.2)
  rw [← h b hb]
  rcases hrun : r b with m | ⟨a, b'⟩
  · rfl
  · obtain ⟨harray, hle⟩ := hr b.array b.position a b' hrun
    have hb' : b'.remaining ≤ k := by
      rw [remaining] at hb ⊢
      rw [harray]
      omega
    exact hf a b' hb'

theorem Agree.map {r r' : Reader α} {f : α → β} (h : Agree k r r') :
    Agree k (f <$> r) (f <$> r') := by
  intro b hb
  change (r b >>= fun p => Pure.pure (f p.1, p.2)) = (r' b >>= fun p => Pure.pure (f p.1, p.2))
  rw [h b hb]

theorem Agree.fill {r r' : Reader α} (h : Agree k r r') (hr : Onward r) :
    ∀ n, Agree k (ByteBuffer.fill r n) (ByteBuffer.fill r' n)
  | 0 => .refl _
  | n + 1 => h.bind hr fun _ => (Agree.fill h hr n).bind (hr.fill n) fun _ => .refl _

theorem Agree.ite {r r' s s' : Reader α} {c : Prop} [Decidable c] (h : Agree k r r')
    (h' : Agree k s s') : Agree k (if c then r else s) (if c then r' else s') := by
  split_ifs
  · exact h
  · exact h'

end

end ByteBuffer
