/-
Decoders that may fail in two ways.

A decoder refuses a value with an error, or throws, and what it throws is no answer at all.
To say what it does on every value it is enough to say which values it takes, which it
refuses, and what a result carries of the value: on the rest it throws. The rules below put
decoders together, and give the three together.
-/
import Mathlib.Data.List.Forall2

set_option autoImplicit false

namespace Decoding

/-- What a decoder leaves. -/
inductive Result (τ ε β : Type) where
  | right (b : β)
  | left (e : ε)
  | thrown (t : τ)

variable {τ ε α β γ δ : Type}

/-! ## 1. Putting decoders together -/

namespace Result

def map (f : β → γ) : Result τ ε β → Result τ ε γ
  | right b => right (f b)
  | left e => left e
  | thrown t => thrown t

def bind (x : Result τ ε β) (f : β → Result τ ε γ) : Result τ ε γ :=
  match x with
  | right b => f b
  | left e => left e
  | thrown t => thrown t

/-- Both are computed before either is looked at. -/
def both (x : Result τ ε β) (y : Result τ ε γ) : Result τ ε (β × γ) :=
  match x, y with
  | thrown t, _ => thrown t
  | _, thrown t => thrown t
  | left e, _ => left e
  | _, left e => left e
  | right b, right c => right (b, c)

/-- From the left, up to the first that fails. -/
def traverse (f : α → Result τ ε β) : List α → Result τ ε (List β)
  | [] => right []
  | x :: xs => (f x).bind fun b => (traverse f xs).map (b :: ·)

end Result

/-! ## 2. What a decoder does on every value -/

/-- The decoder takes the values that `accepts` says, refuses those that `refuses` says, and
throws on the rest; a result carries of the value what `carries` says. -/
structure Decides (f : α → Result τ ε β) (accepts refuses : α → Prop) (carries : α → β → Prop) :
    Prop where
  right : ∀ a, accepts a → ∃ b, f a = .right b ∧ carries a b
  left : ∀ a, refuses a → ∃ e, f a = .left e
  thrown : ∀ a, ¬ accepts a → ¬ refuses a → ∃ t, f a = .thrown t

/-- What is asked of a decoder: it does not throw, it takes what it should, and a result
carries what it should. -/
structure Meets (x : Result τ ε β) (should : Prop) (carries : β → Prop) : Prop where
  returns : ∀ t, x ≠ .thrown t
  right_iff : (∃ b, x = .right b) ↔ should
  carried : ∀ b, x = .right b → carries b

/-- The first value that is not taken is refused. -/
def FirstRefused (accepts refuses : α → Prop) (xs : List α) : Prop :=
  ∃ past x rest, xs = past ++ x :: rest ∧ (∀ y ∈ past, accepts y) ∧ refuses x

namespace Decides

variable {f : α → Result τ ε β} {accepts refuses : α → Prop} {carries : α → β → Prop}

theorem not_accepts (d : Decides f accepts refuses carries) {a : α} (hr : refuses a) :
    ¬ accepts a := by
  intro ha
  obtain ⟨b, hb, -⟩ := d.right a ha
  obtain ⟨e, he⟩ := d.left a hr
  rw [he] at hb
  cases hb

theorem right_iff (d : Decides f accepts refuses carries) (a : α) :
    (∃ b, f a = .right b) ↔ accepts a := by
  constructor
  · rintro ⟨b, hb⟩
    by_contra ha
    by_cases hr : refuses a
    · obtain ⟨e, he⟩ := d.left a hr
      rw [he] at hb
      cases hb
    · obtain ⟨t, ht⟩ := d.thrown a ha hr
      rw [ht] at hb
      cases hb
  · intro ha
    obtain ⟨b, hb, -⟩ := d.right a ha
    exact ⟨b, hb⟩

theorem carried (d : Decides f accepts refuses carries) {a : α} {b : β} (hb : f a = .right b) :
    carries a b := by
  obtain ⟨b', hb', hcarries⟩ := d.right a ((d.right_iff a).mp ⟨b, hb⟩)
  rw [hb] at hb'
  cases hb'
  exact hcarries

theorem returns_iff (d : Decides f accepts refuses carries) (a : α) :
    (∀ t, f a ≠ .thrown t) ↔ accepts a ∨ refuses a := by
  constructor
  · intro h
    by_contra hne
    rw [not_or] at hne
    obtain ⟨t, ht⟩ := d.thrown a hne.1 hne.2
    exact h t ht
  · rintro (ha | hr) t ht
    · obtain ⟨b, hb, -⟩ := d.right a ha
      rw [hb] at ht
      cases ht
    · obtain ⟨e, he⟩ := d.left a hr
      rw [he] at ht
      cases ht

/-- A decoder does what is asked of it on the values that it should take and takes, and on
those that it should not take and refuses. -/
theorem meets_iff (d : Decides f accepts refuses carries) (a : α) (should : Prop) :
    Meets (f a) should (carries a) ↔ (should ∧ accepts a) ∨ (¬ should ∧ refuses a) := by
  constructor
  · intro m
    have hiff : accepts a ↔ should := (d.right_iff a).symm.trans m.right_iff
    rcases (d.returns_iff a).mp m.returns with ha | hr
    · exact .inl ⟨hiff.mp ha, ha⟩
    · exact .inr ⟨fun hs => d.not_accepts hr (hiff.mpr hs), hr⟩
  · rintro (⟨hs, ha⟩ | ⟨hs, hr⟩)
    · exact ⟨(d.returns_iff a).mpr (.inl ha),
        (d.right_iff a).trans ⟨fun _ => hs, fun _ => ha⟩, fun _ => d.carried⟩
    · exact ⟨(d.returns_iff a).mpr (.inr hr),
        (d.right_iff a).trans ⟨fun ha => absurd ha (d.not_accepts hr), fun h => absurd h hs⟩,
        fun _ => d.carried⟩

/-! ## 3. The rules -/

theorem comap (d : Decides f accepts refuses carries) (h : δ → α) :
    Decides (fun x => f (h x)) (fun x => accepts (h x)) (fun x => refuses (h x))
      (fun x => carries (h x)) where
  right := fun x => d.right (h x)
  left := fun x => d.left (h x)
  thrown := fun x => d.thrown (h x)

theorem map (d : Decides f accepts refuses carries) (g : β → γ) {carries' : α → γ → Prop}
    (hg : ∀ a b, accepts a → carries a b → carries' a (g b)) :
    Decides (fun a => (f a).map g) accepts refuses carries' where
  right := by
    intro a ha
    obtain ⟨b, hb, hcarries⟩ := d.right a ha
    exact ⟨g b, by rw [hb]; rfl, hg a b ha hcarries⟩
  left := by
    intro a hr
    obtain ⟨e, he⟩ := d.left a hr
    exact ⟨e, by rw [he]; rfl⟩
  thrown := by
    intro a ha hr
    obtain ⟨t, ht⟩ := d.thrown a ha hr
    exact ⟨t, by rw [ht]; rfl⟩

/-- What refuses every value. -/
theorem refuse (h : ∀ a, ∃ e, f a = .left e) :
    Decides f (fun _ => False) (fun _ => True) (fun _ _ => False) where
  right := fun _ h => h.elim
  left := fun a _ => h a
  thrown := fun _ _ h => absurd trivial h

theorem ite {g : α → Result τ ε β} {accepts' refuses' : α → Prop} {carries' : α → β → Prop}
    (c : α → Prop) [DecidablePred c] (d : Decides f accepts refuses carries)
    (d' : Decides g accepts' refuses' carries') :
    Decides (fun a => if c a then f a else g a) (fun a => if c a then accepts a else accepts' a)
      (fun a => if c a then refuses a else refuses' a)
      (fun a b => if c a then carries a b else carries' a b) where
  right := by
    intro a
    by_cases h : c a
    · simp only [if_pos h]
      exact d.right a
    · simp only [if_neg h]
      exact d'.right a
  left := by
    intro a
    by_cases h : c a
    · simp only [if_pos h]
      exact d.left a
    · simp only [if_neg h]
      exact d'.left a
  thrown := by
    intro a
    by_cases h : c a
    · simp only [if_pos h]
      exact d.thrown a
    · simp only [if_neg h]
      exact d'.thrown a

theorem both {g : α → Result τ ε γ} {accepts' refuses' : α → Prop} {carries' : α → γ → Prop}
    (d : Decides f accepts refuses carries) (d' : Decides g accepts' refuses' carries') :
    Decides (fun a => (f a).both (g a)) (fun a => accepts a ∧ accepts' a)
      (fun a => (refuses a ∧ (accepts' a ∨ refuses' a)) ∨ (accepts a ∧ refuses' a))
      (fun a p => carries a p.1 ∧ carries' a p.2) where
  right := by
    rintro a ⟨ha, ha'⟩
    obtain ⟨b, hb, hcarries⟩ := d.right a ha
    obtain ⟨c, hc, hcarries'⟩ := d'.right a ha'
    exact ⟨(b, c), by rw [hb, hc]; rfl, hcarries, hcarries'⟩
  left := by
    rintro a (⟨hr, ha' | hr'⟩ | ⟨ha, hr'⟩)
    · obtain ⟨e, he⟩ := d.left a hr
      obtain ⟨c, hc, -⟩ := d'.right a ha'
      exact ⟨e, by rw [he, hc]; rfl⟩
    · obtain ⟨e, he⟩ := d.left a hr
      obtain ⟨e', he'⟩ := d'.left a hr'
      exact ⟨e, by rw [he, he']; rfl⟩
    · obtain ⟨b, hb, -⟩ := d.right a ha
      obtain ⟨e', he'⟩ := d'.left a hr'
      exact ⟨e', by rw [hb, he']; rfl⟩
  thrown := by
    intro a ha hr
    by_cases h : accepts a ∨ refuses a
    · -- the first returns, so the second throws
      have ha' : ¬ accepts' a := fun h' => h.elim (fun h => ha ⟨h, h'⟩)
        (fun h => hr (.inl ⟨h, .inl h'⟩))
      have hr' : ¬ refuses' a := fun h' => h.elim (fun h => hr (.inr ⟨h, h'⟩))
        (fun h => hr (.inl ⟨h, .inr h'⟩))
      obtain ⟨t, ht⟩ := d'.thrown a ha' hr'
      rcases h with h | h
      · obtain ⟨b, hb, -⟩ := d.right a h
        exact ⟨t, by rw [hb, ht]; rfl⟩
      · obtain ⟨e, he⟩ := d.left a h
        exact ⟨t, by rw [he, ht]; rfl⟩
    · rw [not_or] at h
      obtain ⟨t, ht⟩ := d.thrown a h.1 h.2
      exact ⟨t, by rw [ht]; rfl⟩

/-- A list is taken when every value is, in order; it is refused when the first value that is
not taken is refused. -/
theorem traverse (d : Decides f accepts refuses carries) :
    Decides (Result.traverse f) (fun xs => ∀ x ∈ xs, accepts x) (FirstRefused accepts refuses)
      (List.Forall₂ carries) where
  right := by
    intro xs hxs
    induction xs with
    | nil => exact ⟨[], rfl, .nil⟩
    | cons x xs ih =>
      obtain ⟨b, hb, hcarries⟩ := d.right x (hxs x List.mem_cons_self)
      obtain ⟨bs, hbs, hcarriesAll⟩ := ih fun y hy => hxs y (List.mem_cons_of_mem x hy)
      refine ⟨b :: bs, ?_, .cons hcarries hcarriesAll⟩
      rw [Result.traverse, hb, hbs]
      rfl
  left := by
    rintro xs ⟨past, x, rest, rfl, hpast, hx⟩
    induction past with
    | nil =>
      obtain ⟨e, he⟩ := d.left x hx
      refine ⟨e, ?_⟩
      rw [List.nil_append, Result.traverse, he]
      rfl
    | cons y past ih =>
      obtain ⟨b, hb, -⟩ := d.right y (hpast y List.mem_cons_self)
      obtain ⟨e, he⟩ := ih fun z hz => hpast z (List.mem_cons_of_mem y hz)
      refine ⟨e, ?_⟩
      rw [List.cons_append, Result.traverse, hb, he]
      rfl
  thrown := by
    intro xs hxs hfirst
    induction xs with
    | nil => exact absurd (fun x hx => absurd hx List.not_mem_nil) hxs
    | cons x xs ih =>
      have hnot : ¬ refuses x := fun hx => hfirst ⟨[], x, xs, rfl, by simp, hx⟩
      by_cases hx : accepts x
      · obtain ⟨b, hb, -⟩ := d.right x hx
        obtain ⟨t, ht⟩ := ih
          (fun h => hxs (List.forall_mem_cons.mpr ⟨hx, h⟩))
          (by
            rintro ⟨past, y, rest, rfl, hpast, hy⟩
            exact hfirst ⟨x :: past, y, rest, rfl, List.forall_mem_cons.mpr ⟨hx, hpast⟩, hy⟩)
        refine ⟨t, ?_⟩
        rw [Result.traverse, hb, ht]
        rfl
      · obtain ⟨t, ht⟩ := d.thrown x hx hnot
        refine ⟨t, ?_⟩
        rw [Result.traverse, ht]
        rfl

end Decides

end Decoding
