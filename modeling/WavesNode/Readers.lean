/-
Readers compared with each other, and with what stands in an array.

`Follows` relates two readers of one format: where the first answers, the second answers with
the same place after it. `Spelt` says when an array is written, from a place on, as a given
text: exactly under a condition, and then the text ends at a given place. Both go through
chains: the end of one part is the start of the next, so that a condition on a whole is the
conditions on its parts, each at its own place.
-/
import WavesNode.ByteBuffer

set_option autoImplicit false

namespace ByteBuffer

/-! ## 1. One reader after another -/

section

variable {α β γ δ : Type}

/-- Where the first reader answers, the second one answers with the same place after it and a
related value. -/
def Follows (r : Reader α) (r' : Reader β) (R : α → β → Prop) : Prop :=
  ∀ b a b', r b = .ok (a, b') → ∃ e, r' b = .ok (e, b') ∧ R a e

variable {r : Reader α} {r' : Reader β} {R : α → β → Prop}

theorem Follows.bind {f : α → Reader γ} {f' : β → Reader δ} {S : γ → δ → Prop}
    (h : Follows r r' R) (hf : ∀ a e, R a e → Follows (f a) (f' e) S) :
    Follows (r >>= f) (r' >>= f') S := by
  intro b c b'' hc
  obtain ⟨a, b', ha, hc⟩ := bind_eq_ok.mp hc
  obtain ⟨e, he, hR⟩ := h b a b' ha
  obtain ⟨d, hd, hS⟩ := hf a e hR b' c b'' hc
  exact ⟨d, bind_eq_ok.mpr ⟨e, b', he, hd⟩, hS⟩

theorem Follows.pure {a : α} {e : β} (h : R a e) : Follows (pure a) (pure e) R := by
  intro b a' b' ha
  obtain ⟨rfl, rfl⟩ := Prod.mk.inj (pure_eq_ok.mp ha)
  exact ⟨e, rfl, h⟩

theorem Follows.throw {m : String} : Follows (throw m : Reader α) r' R :=
  fun _ _ _ h => absurd h throw_ne_ok

theorem Follows.refl (r : Reader α) : Follows r r Eq := fun _ a _ h => ⟨a, h, rfl⟩

theorem Follows.map {f : α → γ} {f' : β → δ} {S : γ → δ → Prop} (h : Follows r r' R)
    (hf : ∀ a e, R a e → S (f a) (f' e)) : Follows (f <$> r) (f' <$> r') S := by
  rw [map_eq_pure_bind, map_eq_pure_bind]
  exact h.bind fun a e hR => .pure (hf a e hR)

/-- A requirement the second reader does not make. -/
theorem Follows.require {c : Bool} {m : String} {f : Unit → Reader α} {s : Reader β}
    (h : c = true → Follows (f ()) s R) : Follows (ByteBuffer.require c m >>= f) s R := by
  intro b a b' ha
  obtain ⟨u, b₁, hu, hrun⟩ := bind_eq_ok.mp ha
  obtain ⟨hc, hb⟩ := require_eq_ok.mp hu
  have hsame : b₁ = b := (Prod.mk.inj hb).2
  rw [hsame] at hrun
  exact h hc b a b' hrun

theorem Follows.fill (h : Follows r r' R) :
    ∀ n, Follows (ByteBuffer.fill r n) (ByteBuffer.fill r' n) (List.Forall₂ R)
  | 0 => .pure .nil
  | n + 1 => h.bind fun _ _ ha => (Follows.fill h n).bind fun _ _ has => .pure (.cons ha has)

end

/-! ## 2. What is written from a place on -/

section

variable {l w w' : List Byte} {p q r n : ℕ} {C C' : Prop}

/-- The stretch from `p` to `q` is `w`. -/
def Stretch (l : List Byte) (p : ℕ) (w : List Byte) (q : ℕ) : Prop := l.drop p = w ++ l.drop q

/-- From `p` on an array starts with `w` exactly under a condition, and then `w` ends at `q`. -/
def Spelt (l : List Byte) (p : ℕ) (w : List Byte) (C : Prop) (q : ℕ) : Prop :=
  ∀ t, l.drop p = w ++ t ↔ C ∧ l.drop q = t

theorem stretch_slice (l : List Byte) (p n : ℕ) : Stretch l p (slice l p n) (p + n) := by
  rw [Stretch, slice, ← List.drop_drop, List.take_append_drop]

theorem Stretch.nil : Stretch l p [] p := rfl

theorem Stretch.append (h : Stretch l p w q) (h' : Stretch l q w' r) :
    Stretch l p (w ++ w') r := by
  rw [Stretch, h, h', List.append_assoc]

theorem Stretch.append_spelt (h : Stretch l p w q) (h' : Spelt l q w' C r) :
    Spelt l p (w ++ w') C r := by
  intro t
  rw [h, List.append_assoc, List.append_right_inj]
  exact h' t

theorem Spelt.append_stretch (h : Spelt l p w C q) (h' : Stretch l q w' r) :
    Spelt l p (w ++ w') C r := by
  intro t
  rw [List.append_assoc, h, h', List.append_right_inj]

/-- The second text is compared only if the first one is there. -/
theorem Spelt.append_of (h : Spelt l p w C q) (h' : C → Spelt l q w' C' r) :
    Spelt l p (w ++ w') (C ∧ C') r := by
  intro t
  rw [List.append_assoc, h, and_assoc]
  exact and_congr_right fun hC => h' hC t

theorem Spelt.append (h : Spelt l p w C q) (h' : Spelt l q w' C' r) :
    Spelt l p (w ++ w') (C ∧ C') r :=
  h.append_of fun _ => h'

theorem Spelt.stretch (h : Spelt l p w C q) (hC : C) : Stretch l p w q := (h _).mpr ⟨hC, rfl⟩

theorem Spelt.congr (h : Spelt l p w C q) (hC : C ↔ C') : Spelt l p w C' q := by
  intro t
  rw [h, hC]

theorem Stretch.spelt (h : Stretch l p w q) (hC : C) : Spelt l p w C q := by
  intro t
  rw [h, List.append_right_inj]
  exact (and_iff_right hC).symm

/-- A text as long as the stretch it is compared with. -/
theorem spelt_of_length (hw : w.length = n) (hn : p + n ≤ l.length) :
    Spelt l p w (slice l p n = w) (p + n) := by
  intro t
  rw [stretch_slice l p n]
  constructor
  · intro h
    exact List.append_inj h (by rw [length_slice hn, hw])
  · rintro ⟨rfl, rfl⟩
    rfl

/-- To the end of the array. -/
theorem Spelt.whole (h : Spelt l p w C q) : l.drop p = w ↔ C ∧ l.length ≤ q := by
  have hnil := h []
  rwa [List.append_nil, List.drop_eq_nil_iff] at hnil

/-- The start of an array and the rest. -/
theorem eq_append_iff {head rest : List Byte} :
    head ++ rest = l ↔ l.take head.length = head ∧ l.drop head.length = rest := by
  constructor
  · rintro rfl
    exact ⟨List.take_left, List.drop_left⟩
  · rintro ⟨hhead, hrest⟩
    rw [← hrest]
    nth_rewrite 1 [← hhead]
    exact List.take_append_drop _ _

/-- A list whose elements are spelt each under its own condition. -/
theorem Reads.spelt_fill {α : Type} {r : Reader α} {write : α → List Byte} {next : ℕ → ℕ}
    {C : ℕ → Prop} (h : ∀ p, Reads r l p fun a q => q = next p ∧ Spelt l p (write a) (C p) q)
    (n p : ℕ) :
    Reads (ByteBuffer.fill r n) l p fun as q => as.length = n ∧ q = next^[n] p ∧
      Spelt l p (as.flatMap write) (∀ q' ∈ List.iterate next p n, C q') q := by
  induction n generalizing p with
  | zero => exact .pure ⟨rfl, rfl, Stretch.nil.spelt (by simp)⟩
  | succ n ih =>
    refine (h p).bind ?_
    rintro a _ ⟨rfl, ha⟩
    refine (ih (next p)).bind ?_
    rintro as _ ⟨hlength, rfl, has⟩
    refine .pure ⟨congrArg (· + 1) hlength, rfl, (ha.append has).congr ?_⟩
    rw [List.iterate, List.forall_mem_cons]

end

end ByteBuffer
