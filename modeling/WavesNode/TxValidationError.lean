/-
Validation errors, and the two ways a validation can fail to answer.

`Either[ValidationError, A]` is the declared result of every validator, but a
validator of the node can also throw: a `.get` on nothing, `longValueExact` out of
range, a `???`. A caller that catches the one does not catch the other, so the two
are kept apart: `Failure.error` is a `Left`, `Failure.thrown` an exception that
leaves the function.

Logs and traces that only serve diagnostics are not carried.
-/
import WavesNode.TxSerializers

set_option autoImplicit false

namespace WavesNode

/-- `ValidationError` and its cases. -/
inductive ValidationError where
  | InvalidAddress (reason : String)
  | NegativeAmount (amount : Long) (of_ : String)
  | NonPositiveAmount (amount : Long) (of_ : String)
  | NegativeMinFee (minFee : Long) (of_ : String)
  | InsufficientFee (msg : String)
  | TooBigArray
  | InvalidName
  | OverflowError
  | ToSelf
  | UnsupportedTransactionType
  | AlreadyInTheState (txId : ByteStr) (txHeight : ℕ)
  | AccountBalanceError (errs : FiniteMap Address String)
  | AliasDoesNotExist (a : Alias)
  | AliasIsDisabled (a : Alias)
  | OrderValidationError (order : Order) (err : String)
  | Mistiming (err : String)
  | BlockAppendError (err : String) (blockId : ByteStr)
  | ActivationError (err : String)
  | GenericError (err : String)
  | InvalidSignature (sender : PublicKey)
  | ScriptExecutionError (error : String) (isAssetScript : Bool)
  | TransactionNotAllowedByScript (isAssetScript : Bool)
  | MicroBlockAppendError (err : String) (totalResBlockSig : ByteStr)
  | EmptyDataKey
  | DuplicatedDataKeys
  | WrongChain (expected provided : Byte)
  | UnsupportedTypeAndVersion (typeId : Byte) (version : Int)
  | TooManyProofs (max actual : ℕ)
  | ToBigProof (max actual : ℕ)
  | TransactionValidationError (cause : ValidationError) (tx : Transaction)
  | BlockFromFuture (ts : Long)

/-- A rejection, or an exception. -/
inductive Failure where
  | error (e : ValidationError)
  | thrown (message : String)

/-- The result of a function declared `Either[ValidationError, A]`. -/
abbrev Validation (α : Type) := Except Failure α

namespace Validation

variable {α β : Type}

/-- `Left(e)`. -/
def fail (e : ValidationError) : Validation α := .error (.error e)

/-- An exception. -/
def throwing (message : String) : Validation α := .error (.thrown message)

/-- `Either.cond(test, (), e)`. -/
def cond (test : Bool) (e : ValidationError) : Validation Unit := if test then .ok () else fail e

/-- `Option.toRight(e)`. -/
def ofOption (e : ValidationError) : Option α → Validation α
  | some a => .ok a
  | none => fail e

/-- `Option.get`, which throws on nothing. -/
def get (what : String) : Option α → Validation α
  | some a => .ok a
  | none => throwing what

/-- `Either.left.map`: only a `Left` is rewritten, an exception passes through. -/
def leftMap (f : ValidationError → ValidationError) : Validation α → Validation α
  | .ok a => .ok a
  | .error (.error e) => .error (.error (f e))
  | .error (.thrown m) => .error (.thrown m)

/-- `Either.isLeft`. -/
def isLeft : Validation α → Bool
  | .error (.error _) => true
  | _ => false

/-! ## Inversion

A validator is a chain of binds; a run that answered went through every link. -/

theorem bind_eq_ok {x : Validation α} {f : α → Validation β} {b : β} :
    x >>= f = .ok b ↔ ∃ a, x = .ok a ∧ f a = .ok b := by
  cases x with
  | error e =>
    constructor
    · intro h
      exact absurd h (by simp [bind, Except.bind])
    · rintro ⟨a, ha, -⟩
      exact absurd ha (by simp)
  | ok a =>
    constructor
    · exact fun h => ⟨a, rfl, h⟩
    · rintro ⟨a', ha, h⟩
      cases ha
      exact h

theorem ok_bind (a : α) (f : α → Validation β) : (.ok a : Validation α) >>= f = f a := rfl

theorem error_bind (e : Failure) (f : α → Validation β) :
    (.error e : Validation α) >>= f = .error e := rfl

theorem map_eq_ok {x : Validation α} {f : α → β} {b : β} :
    f <$> x = .ok b ↔ ∃ a, x = .ok a ∧ f a = b := by
  cases x with
  | error e => simp [Functor.map, Except.map]
  | ok a => simp [Functor.map, Except.map]

@[simp] theorem pure_eq_ok {a b : α} : (pure a : Validation α) = .ok b ↔ a = b := by
  simp [pure, Except.pure]

@[simp] theorem cond_eq_ok {test : Bool} {e : ValidationError} {u : Unit} :
    cond test e = .ok u ↔ test = true := by
  cases test <;> simp [cond, fail]

@[simp] theorem fail_ne_ok {e : ValidationError} {a : α} : (fail e : Validation α) ≠ .ok a := by
  simp [fail]

@[simp] theorem throwing_ne_ok {m : String} {a : α} :
    (throwing m : Validation α) ≠ .ok a := by
  simp [throwing]

@[simp] theorem ofOption_eq_ok {e : ValidationError} {x : Option α} {a : α} :
    ofOption e x = .ok a ↔ x = some a := by
  cases x <;> simp [ofOption]

@[simp] theorem get_eq_ok {what : String} {x : Option α} {a : α} :
    get what x = .ok a ↔ x = some a := by
  cases x <;> simp [get]

@[simp] theorem leftMap_eq_ok {f : ValidationError → ValidationError} {x : Validation α}
    {a : α} : leftMap f x = .ok a ↔ x = .ok a := by
  rcases x with (e | m) | a' <;> simp [leftMap]

/-- A validation that answers has the answer. -/
theorem eq_ok_getD {x : Validation α} {a : α} (h : x.toOption.isSome = true) :
    x = .ok (x.toOption.getD a) := by
  cases x with
  | error e => cases h
  | ok v => rfl

theorem isLeft_iff {x : Validation α} : x.isLeft = true ↔ ∃ e, x = .error (.error e) := by
  rcases x with (e | m) | a <;> simp [isLeft]

theorem toOption_eq_some {x : Validation α} {a : α} : x.toOption = some a ↔ x = .ok a := by
  cases x with
  | error e => simp [Except.toOption]
  | ok v => simp [Except.toOption]

/-- A list is validated when every element is. -/
theorem mapM_eq_ok {f : α → Validation β} {l : List α} {r : List β} :
    l.mapM f = .ok r ↔ List.Forall₂ (fun a b => f a = .ok b) l r := by
  induction l generalizing r with
  | nil =>
    rw [List.mapM_nil, pure_eq_ok, List.forall₂_nil_left_iff]
    exact eq_comm
  | cons a rest ih =>
    rw [List.mapM_cons, List.forall₂_cons_left_iff]
    simp only [bind_eq_ok, pure_eq_ok, ih]
    constructor
    · rintro ⟨b, hb, bs, hbs, rfl⟩
      exact ⟨b, bs, hb, hbs, rfl⟩
    · rintro ⟨b, bs, hb, hbs, rfl⟩
      exact ⟨b, hb, bs, hbs, rfl⟩

/-- A check that did not reject is a check that passed. -/
theorem eq_ok_of_toBool {x : Validation Unit} (h : x.toBool = true) : x = .ok () := by
  cases x with
  | error e => cases h
  | ok u => rfl

end Validation

/-! ## Reading addresses and aliases from bytes -/

section
variable [Crypto]

/-- `Address.fromBytes`: length, version, network and checksum, in this order. -/
def Address.fromBytes (addressBytes : ByteStr) : Validation Address :=
  if addressBytes.length ≠ Address.AddressLength then
    .fail (.InvalidAddress
      s!"Wrong addressBytes length: expected: {Address.AddressLength}, actual: {addressBytes.length}")
  else
    let version := addressBytes.getD 0 0
    let network := addressBytes.getD 1 0
    if version ≠ Address.AddressVersion then
      .fail (.InvalidAddress s!"Unknown address version: {version}")
    else if network ≠ Crypto.chainId then
      .fail (.InvalidAddress
        s!"Data from other network: expected: {Crypto.chainId}, actual: {network}")
    else
      let bodyLength := Address.AddressLength - Address.ChecksumLength
      if addressBytes.drop bodyLength ≠ Address.calcCheckSum (addressBytes.take bodyLength) then
        .fail (.InvalidAddress "Bad address checksum")
      else .ok ⟨addressBytes⟩

/-- `Alias.createWithChainId`; chain 0 stands for the node's own. -/
def Alias.createWithChainId (name : String) (chainId : Byte) : Validation Alias :=
  if name.length < Alias.MinLength ∨ Alias.MaxLength < name.length then
    .fail (.GenericError
      s!"Alias '{name}' length should be between {Alias.MinLength} and {Alias.MaxLength}")
  else if !name.toList.all Alias.isValidAliasChar then
    .fail (.GenericError
      s!"Alias should contain only following characters: {Alias.AliasAlphabet}")
  else if chainId ≠ 0 ∧ chainId ≠ Crypto.chainId then
    .fail (.GenericError "Alias network char doesn't match current scheme")
  else .ok ⟨if chainId = 0 then Crypto.chainId else chainId, name⟩

/-- An address read from bytes has exactly these bytes. -/
theorem Address.fromBytes_bytes {bytes : ByteStr} {a : Address}
    (h : Address.fromBytes bytes = .ok a) : a.bytes = bytes := by
  unfold Address.fromBytes at h
  split at h
  · simp at h
  · dsimp only at h
    split at h
    · simp at h
    · split at h
      · simp at h
      · split at h
        · simp at h
        · simp only [Except.ok.injEq] at h
          rw [← h]

end

end WavesNode
