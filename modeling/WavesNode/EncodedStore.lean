/-
Stores under encoded keys.

A store answers a key with a value or with nothing. A transaction reads a store as it was when
the transaction began, and leaves a batch of writes and deletions that is applied at its end.
Where the keys are encoded, the store has the encoded keys, and a transaction goes through the
encoding in both directions.

The store with the encoded keys answers as the one with the keys, in every run of transactions
that use certain keys only, exactly if no two of these are encoded alike (`run_encoded_iff`).
-/
import Mathlib.Data.Set.Function
import Mathlib.Logic.Function.Basic

set_option autoImplicit false

namespace EncodedStore

/-! ## 1. Transactions -/

section
variable {κ υ : Type} [DecidableEq κ]

/-- Writes and deletions, in their order. -/
abbrev Batch (κ υ : Type) := List (κ × Option υ)

/-- What a transaction leaves, by what it can read. -/
abbrev Transaction (κ υ : Type) := (κ → Option υ) → Batch κ υ

def commit (s : κ → Option υ) (batch : Batch κ υ) : κ → Option υ :=
  batch.foldl (fun s op => Function.update s op.1 op.2) s

def run (s : κ → Option υ) (ts : List (Transaction κ υ)) : κ → Option υ :=
  ts.foldl (fun s t => commit s (t s)) s

@[simp] theorem run_nil (s : κ → Option υ) : run s [] = s := rfl

@[simp] theorem run_cons (s : κ → Option υ) (t : Transaction κ υ) (ts : List (Transaction κ υ)) :
    run s (t :: ts) = run (commit s (t s)) ts := rfl

/-- Two stores that agree on some keys. -/
def Agree (U : Set κ) (s s' : κ → Option υ) : Prop := ∀ k ∈ U, s k = s' k

/-- A transaction that writes certain keys only, and whose writes depend on these only. -/
structure Uses (U : Set κ) (t : Transaction κ υ) : Prop where
  writes : ∀ s, ∀ op ∈ t s, op.1 ∈ U
  reads : ∀ s s', Agree U s s' → t s = t s'

end

/-! ## 2. Encodings -/

variable {κ β υ : Type} [DecidableEq κ] [DecidableEq β] (enc : κ → β)

/-- The transaction on the store with the encoded keys. -/
def encoded (t : Transaction κ υ) : Transaction β υ :=
  fun s => (t (s ∘ enc)).map (Prod.map enc id)

variable {enc} {U : Set κ}

/-- **One batch** of keys that are encoded differently. -/
theorem agree_commit (hinj : Set.InjOn enc U) {s : κ → Option υ} {S : β → Option υ}
    (h : Agree U (S ∘ enc) s) {batch : Batch κ υ} (hbatch : ∀ op ∈ batch, op.1 ∈ U) :
    Agree U (commit S (batch.map (Prod.map enc id)) ∘ enc) (commit s batch) := by
  induction batch generalizing s S with
  | nil => exact h
  | cons op batch ih =>
    refine ih ?_ fun op' hop' => hbatch op' (List.mem_cons_of_mem op hop')
    intro k hk
    have hop := hbatch op List.mem_cons_self
    by_cases heq : k = op.1
    · subst heq
      simp [Function.update_self]
    · have hne : enc k ≠ enc op.1 := fun hsame => heq (hinj hk hop hsame)
      have hold := h k hk
      simpa [Function.update_of_ne heq, Function.update_of_ne hne] using hold

/-- **A whole run.** -/
theorem agree_run (hinj : Set.InjOn enc U) {s : κ → Option υ} {S : β → Option υ}
    (h : Agree U (S ∘ enc) s) {ts : List (Transaction κ υ)} (hts : ∀ t ∈ ts, Uses U t) :
    Agree U (run S (ts.map (encoded enc)) ∘ enc) (run s ts) := by
  induction ts generalizing s S with
  | nil => exact h
  | cons t ts ih =>
    have ht := hts t List.mem_cons_self
    refine ih ?_ fun t' ht' => hts t' (List.mem_cons_of_mem t ht')
    change Agree U (commit S ((t (S ∘ enc)).map (Prod.map enc id)) ∘ enc) (commit s (t s))
    rw [ht.reads _ _ h]
    exact agree_commit hinj h (ht.writes s)

omit [DecidableEq κ] in
/-- A transaction that writes one value. -/
theorem uses_put {k : κ} (hk : k ∈ U) (v : υ) : Uses U fun _ => [(k, some v)] where
  writes _ op hop := by
    rw [List.mem_singleton.mp hop]
    exact hk
  reads _ _ _ := rfl

/-- From empty stores on, the one with the encoded keys answers as the one with the keys in
every run that uses certain keys only, exactly if these are encoded differently. -/
theorem run_encoded_iff [Nonempty υ] :
    (∀ ts : List (Transaction κ υ), (∀ t ∈ ts, Uses U t) →
        Agree U (run (fun _ => none) (ts.map (encoded enc)) ∘ enc) (run (fun _ => none) ts)) ↔
      Set.InjOn enc U := by
  constructor
  · intro h k hk k' hk' hsame
    by_contra hne
    obtain ⟨v⟩ := ‹Nonempty υ›
    -- what is written under the one key is read under the other
    have hrun := h [fun _ => [(k, some v)]] (by simp [uses_put hk v]) k' hk'
    simp [encoded, commit, hsame, Function.update_of_ne (Ne.symm hne)] at hrun
  · intro hinj ts hts
    exact agree_run hinj (fun _ _ => rfl) hts

end EncodedStore
