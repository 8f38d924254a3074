/-
Walks along a partial successor function, and tables that remember answers.

A recursion that follows one reference after another ends where there is no next
reference. How many steps it takes is determined by where it starts, so a walk
that ends meets no place twice, and it ends within as many steps as there are places
with a successor: a bound on those is enough fuel for it (`Walk.endsAfter_le_length`).

A table of remembered answers is sound when each of its entries is still an answer
(`Memo.Sound`). Forgetting entries keeps it sound, whatever is forgotten, and it is
sound for changed answers as soon as those of its own keys have not changed.
-/
import WavesNode.FiniteMap

set_option autoImplicit false

/-! ## 1. Walks -/

namespace Walk

variable {α : Type} {next : α → Option α}

/-- The walk from a place makes exactly so many steps. -/
def EndsAfter (next : α → Option α) : ℕ → α → Prop
  | 0, x => next x = none
  | n + 1, x => ∃ y, next x = some y ∧ EndsAfter next n y

/-- The walk from a place ends. -/
def Ends (next : α → Option α) (x : α) : Prop := ∃ n, EndsAfter next n x

theorem ends_of_none {x : α} (h : next x = none) : Ends next x := ⟨0, h⟩

theorem ends_iff {x y : α} (h : next x = some y) : Ends next x ↔ Ends next y := by
  constructor
  · rintro ⟨n, hn⟩
    cases n with
    | zero =>
      rw [EndsAfter, h] at hn
      cases hn
    | succ n =>
      obtain ⟨z, hz, hrest⟩ := hn
      rw [h, Option.some.injEq] at hz
      exact ⟨n, hz ▸ hrest⟩
  · rintro ⟨n, hn⟩
    exact ⟨n + 1, y, h, hn⟩

theorem endsAfter_unique {n m : ℕ} {x : α} (hn : EndsAfter next n x)
    (hm : EndsAfter next m x) : n = m := by
  induction n generalizing m x with
  | zero =>
    cases m with
    | zero => rfl
    | succ m =>
      obtain ⟨y, hy, -⟩ := hm
      rw [EndsAfter, hy] at hn
      cases hn
  | succ n ih =>
    obtain ⟨y, hy, hrest⟩ := hn
    cases m with
    | zero =>
      rw [EndsAfter, hy] at hm
      cases hm
    | succ m =>
      obtain ⟨z, hz, hrest'⟩ := hm
      rw [hy, Option.some.injEq] at hz
      rw [ih hrest (hz ▸ hrest')]

/-- The places that a walk leaves: no two of them are the same, since each has another
number of steps before it. -/
theorem exists_path {n : ℕ} {x : α} (h : EndsAfter next n x) :
    ∃ path : List α, path.length = n ∧ path.Nodup ∧
      ∀ z ∈ path, (next z).isSome = true ∧ ∃ k ≤ n, EndsAfter next k z := by
  induction n generalizing x with
  | zero => exact ⟨[], rfl, List.nodup_nil, fun z hz => absurd hz List.not_mem_nil⟩
  | succ n ih =>
    obtain ⟨y, hy, hrest⟩ := h
    obtain ⟨path, hlength, hnodup, hpath⟩ := ih hrest
    have hx : EndsAfter next (n + 1) x := ⟨y, hy, hrest⟩
    refine ⟨x :: path, by rw [List.length_cons, hlength], ?_, ?_⟩
    · refine List.nodup_cons.mpr ⟨?_, hnodup⟩
      intro hmem
      obtain ⟨-, k, hk, hends⟩ := hpath x hmem
      have := endsAfter_unique hx hends
      omega
    · intro z hz
      rcases List.mem_cons.mp hz with rfl | hz
      · exact ⟨by rw [hy]; rfl, n + 1, le_refl _, hx⟩
      · obtain ⟨hsome, k, hk, hends⟩ := hpath z hz
        exact ⟨hsome, k, Nat.le_succ_of_le hk, hends⟩

/-- **Enough fuel**: a walk that ends makes no more steps than there are places to leave. -/
theorem endsAfter_le_length {n : ℕ} {x : α} {places : List α}
    (hplaces : ∀ z, (next z).isSome = true → z ∈ places) (h : EndsAfter next n x) :
    n ≤ places.length := by
  obtain ⟨path, hlength, hnodup, hpath⟩ := exists_path h
  rw [← hlength]
  exact (List.subperm_of_subset hnodup fun z hz => hplaces z (hpath z hz).1).length_le

/-- A walk that only goes to lower places ends. -/
theorem ends_of_rank (rank : α → ℕ) (h : ∀ x y, next x = some y → rank y < rank x) (x : α) :
    Ends next x := by
  -- the rank of the place carries the induction
  induction hr : rank x using Nat.strong_induction_on generalizing x with
  | h r ih =>
    cases hx : next x with
    | none => exact ends_of_none hx
    | some y =>
      rw [ends_iff hx]
      exact ih (rank y) (hr ▸ h x y hx) y rfl

/-- Two successor functions that differ at one place only: the walk is the same if it does
not meet that place. -/
theorem endsAfter_congr {next' : α → Option α} {p : α → Prop}
    (hsame : ∀ x, p x → next' x = next x) (hkeep : ∀ x y, p x → next x = some y → p y)
    {n : ℕ} {x : α} (hx : p x) : EndsAfter next' n x ↔ EndsAfter next n x := by
  induction n generalizing x with
  | zero => rw [EndsAfter, EndsAfter, hsame x hx]
  | succ n ih =>
    simp only [EndsAfter, hsame x hx]
    constructor
    · rintro ⟨y, hy, hrest⟩
      exact ⟨y, hy, (ih (hkeep x y hx hy)).mp hrest⟩
    · rintro ⟨y, hy, hrest⟩
      exact ⟨y, hy, (ih (hkeep x y hx hy)).mpr hrest⟩

end Walk

/-! ## 2. Remembered answers -/

namespace Memo

variable {κ υ : Type} [DecidableEq κ] {R R' : κ → υ → Prop} {m : FiniteMap κ υ}

/-- Every remembered value is an answer for its key. -/
def Sound (R : κ → υ → Prop) (m : FiniteMap κ υ) : Prop := ∀ k v, m.get? k = some v → R k v

theorem sound_empty : Sound R (∅ : FiniteMap κ υ) := by
  intro k v h
  rw [FiniteMap.get?_empty] at h
  cases h

/-- What a table forgets of its own accord, moment by moment: it never makes an entry up. -/
structure Eviction (κ υ : Type) [DecidableEq κ] where
  retain : ℕ → FiniteMap κ υ → FiniteMap κ υ
  retain_le : ∀ moment m k v, (retain moment m).get? k = some v → m.get? k = some v

/-- Nothing is forgotten. -/
def Eviction.never : Eviction κ υ := ⟨fun _ m => m, fun _ _ _ _ h => h⟩

theorem Sound.retain (h : Sound R m) (evict : Eviction κ υ) (moment : ℕ) :
    Sound R (evict.retain moment m) := fun k v hv => h k v (evict.retain_le moment m k v hv)

theorem Sound.insert (h : Sound R m) {k : κ} {v : υ} (hv : R k v) : Sound R (m.insert k v) := by
  intro k' v' h'
  rw [FiniteMap.get?_insert] at h'
  by_cases hk : k' = k
  · rw [if_pos hk, Option.some.injEq] at h'
    rw [hk, ← h']
    exact hv
  · rw [if_neg hk] at h'
    exact h k' v' h'

/-- **Changed answers**: a table without the key that changed stays sound if the other keys
kept their answers. -/
theorem Sound.erase (h : Sound R m) {k : κ} (hR : ∀ k' v, k' ≠ k → R k' v → R' k' v) :
    Sound R' (m.erase k) := by
  intro k' v hv
  rw [FiniteMap.get?_erase] at hv
  by_cases hk : k' = k
  · rw [if_pos hk] at hv
    cases hv
  · rw [if_neg hk] at hv
    exact hR k' v hk (h k' v hv)

end Memo
