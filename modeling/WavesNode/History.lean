/-
Values kept with their past.

A `History` is how a store that can be rolled back keeps one value: the heights at which
it was written, the latest first, and what was written at each of them. `push` writes at
a new height and forgets what lies at or below a threshold, all but the latest of it;
`drop` takes one height out again.

What a store answers at a height is `asOf`. The two results everything above rests on are
that neither a push nor a drop of a later height changes it (`asOf_push`, `asOf_drop`):
as long as no threshold rises above a height, what the value was there can be had back by
dropping the heights above.
-/
import Mathlib.Data.List.Basic
import Mathlib.Data.List.Pairwise
import Mathlib.Order.Basic

set_option autoImplicit false

/-- The heights a value was written at, the latest first, and what was written. A height
may be there without a value: something was taken away at it. -/
@[ext]
structure History (υ : Type) where
  heights : List ℕ
  value : ℕ → Option υ

namespace History

variable {υ : Type} (s : History υ)

/-! ## 1. Reading and writing -/

def empty : History υ := ⟨[], fun _ => none⟩

instance : Inhabited (History υ) := ⟨empty⟩

/-- The value now. -/
def latest : Option υ := s.heights.head?.bind s.value

/-- The value a height left. -/
def asOf (k : ℕ) : Option υ := (s.heights.find? (· ≤ k)).bind s.value

/-- Write at a height, and forget all but the latest of what lies at the threshold or
below it. -/
def push (height threshold : ℕ) (v : Option υ) : History υ where
  heights := (height :: s.heights.filter (threshold < ·)) ++
    ((s.heights.filter (· ≤ threshold)).head?).toList
  value k :=
    if k ∈ (s.heights.filter (· ≤ threshold)).drop 1 then none
    else if k = height then v.or (s.value k)
    else s.value k

/-- Write if there is something to write. -/
def pushSome (height threshold : ℕ) : Option υ → History υ
  | none => s
  | some v => s.push height threshold (some v)

/-- Take a height out. -/
def drop (height : ℕ) : History υ where
  heights := s.heights.filter (· ≠ height)
  value k := if k = height then none else s.value k

@[simp] theorem latest_empty : (empty : History υ).latest = none := rfl

@[simp] theorem asOf_empty (k : ℕ) : (empty : History υ).asOf k = none := rfl

/-! ## 2. Histories that end at a height -/

/-- Nothing is known above height `n`, the heights descend, and what is stored belongs to
one of them. -/
structure UpTo (n : ℕ) : Prop where
  sorted : s.heights.Pairwise (· > ·)
  le : ∀ h ∈ s.heights, h ≤ n
  written : ∀ h, (s.value h).isSome = true → h ∈ s.heights

variable {s}

theorem upTo_empty (n : ℕ) : (empty : History υ).UpTo n where
  sorted := List.Pairwise.nil
  le := by simp [empty]
  written := by simp [empty]

theorem UpTo.mono {n m : ℕ} (hs : s.UpTo n) (hnm : n ≤ m) : s.UpTo m where
  sorted := hs.sorted
  le h hh := Nat.le_trans (hs.le h hh) hnm
  written := hs.written

/-- A history that did not change at its last height ends before it. -/
theorem UpTo.pred {n : ℕ} (hs : s.UpTo (n + 1)) (hn : n + 1 ∉ s.heights) : s.UpTo n where
  sorted := hs.sorted
  le h hh := by
    have hle := hs.le h hh
    have hne : h ≠ n + 1 := fun he => hn (he ▸ hh)
    omega
  written := hs.written

theorem UpTo.value_eq_none {n k : ℕ} (hs : s.UpTo n) (hk : n < k) : s.value k = none := by
  rcases hv : s.value k with _ | v
  · rfl
  · have hmem := hs.written k (by rw [hv]; rfl)
    have hle := hs.le k hmem
    omega

/-- The value now is the one the last height left. -/
theorem UpTo.latest_eq_asOf {n : ℕ} (hs : s.UpTo n) : s.latest = s.asOf n := by
  have hfind : s.heights.find? (· ≤ n) = s.heights.head? := by
    rcases hl : s.heights with _ | ⟨h, rest⟩
    · rfl
    · have hle : h ≤ n := hs.le h (by rw [hl]; exact List.mem_cons_self)
      simp [hle]
  rw [latest, asOf, hfind]

/-- A descending list is what lies above a threshold, and then the rest. -/
theorem filter_append_filter {l : List ℕ} (hl : l.Pairwise (· > ·)) (t : ℕ) :
    l.filter (t < ·) ++ l.filter (· ≤ t) = l := by
  induction l with
  | nil => rfl
  | cons h rest ih =>
    rw [List.pairwise_cons] at hl
    have hrest := ih hl.2
    by_cases ht : t < h
    · have hnot : ¬ h ≤ t := by omega
      rw [List.filter_cons_of_pos (by simpa using ht), List.filter_cons_of_neg (by simpa using hnot),
        List.cons_append, hrest]
    · -- everything after `h` is below it, so nothing is left above the threshold
      have hnone : rest.filter (t < ·) = [] := by
        rw [List.filter_eq_nil_iff]
        intro x hx
        have := hl.1 x hx
        simp only [decide_eq_true_eq]
        omega
      have hle : h ≤ t := by omega
      rw [List.filter_cons_of_neg (by simpa using ht), List.filter_cons_of_pos (by simpa using hle),
        hnone]
      rw [hnone] at hrest
      rw [List.nil_append] at hrest ⊢
      rw [hrest]

theorem find?_push {n k threshold height : ℕ} {v : Option υ} (hs : s.UpTo n) (hk : k < height)
    (ht : threshold ≤ k) :
    (s.push height threshold v).heights.find? (· ≤ k) = s.heights.find? (· ≤ k) := by
  have hbase : ∀ x ∈ s.heights.filter (· ≤ threshold), x ≤ k := by
    intro x hx
    have hx' := (List.mem_filter.mp hx).2
    rw [decide_eq_true_eq] at hx'
    omega
  have hhead : ¬ height ≤ k := by omega
  have hfind : (s.heights.filter (· ≤ threshold)).find? (· ≤ k) =
      (s.heights.filter (· ≤ threshold)).head? := by
    rcases hb : s.heights.filter (· ≤ threshold) with _ | ⟨x, rest⟩
    · rfl
    · have hx : x ≤ k := hbase x (by rw [hb]; exact List.mem_cons_self)
      simp [hx]
  have htake : (((s.heights.filter (· ≤ threshold)).head?).toList).find? (· ≤ k) =
      (s.heights.filter (· ≤ threshold)).head? := by
    rcases hb : s.heights.filter (· ≤ threshold) with _ | ⟨x, rest⟩
    · rfl
    · have hx : x ≤ k := hbase x (by rw [hb]; exact List.mem_cons_self)
      simp [hx]
  calc (s.push height threshold v).heights.find? (· ≤ k)
      = ((s.heights.filter (threshold < ·)).find? (· ≤ k)).or
          (s.heights.filter (· ≤ threshold)).head? := by
        rw [push, List.cons_append, List.find?_cons_of_neg (by simpa using hhead),
          List.find?_append, htake]
    _ = s.heights.find? (· ≤ k) := by
        conv_rhs => rw [← filter_append_filter hs.sorted threshold]
        rw [List.find?_append, hfind]

/-- **Writing later does not change what a height left**, as long as the threshold is not
above it. -/
theorem asOf_push {n k threshold height : ℕ} {v : Option υ} (hs : s.UpTo n) (hn : n < height)
    (hk : k < height) (ht : threshold ≤ k) :
    (s.push height threshold v).asOf k = s.asOf k := by
  rw [asOf, asOf, find?_push hs hk ht]
  rcases hfind : s.heights.find? (· ≤ k) with _ | x
  · rfl
  · have hmem := List.mem_of_find?_eq_some hfind
    have hle := hs.le x hmem
    have hx : x ≠ height := by omega
    -- the height found is the first of those at most `k`, so it is not forgotten
    have hkept : x ∉ (s.heights.filter (· ≤ threshold)).drop 1 := by
      intro hdrop
      have hsorted := hs.sorted.filter (· ≤ threshold)
      rcases hb : s.heights.filter (· ≤ threshold) with _ | ⟨y, rest⟩
      · rw [hb] at hdrop
        exact absurd hdrop (by simp)
      · rw [hb, List.drop_one, List.tail_cons] at hdrop
        rw [hb, List.pairwise_cons] at hsorted
        have hxy := hsorted.1 x hdrop
        have hy : y ∈ s.heights.filter (· ≤ threshold) := by rw [hb]; exact List.mem_cons_self
        rw [List.mem_filter, decide_eq_true_eq] at hy
        have hyk : y ≤ k := Nat.le_trans hy.2 ht
        -- a later height at most `k` would have been found before `x`
        have hsplit := List.find?_eq_some_iff_append.mp hfind
        obtain ⟨-, before, after, hl, hbefore⟩ := hsplit
        rw [hl, List.mem_append, List.mem_cons] at hy
        rcases hy.1 with hyb | hyx | hya
        · have hnot := hbefore y hyb
          simp only [Bool.not_eq_true', decide_eq_false_iff_not] at hnot
          omega
        · omega
        · have hsorted' := hs.sorted
          rw [hl, List.pairwise_append] at hsorted'
          have hgt := (List.pairwise_cons.mp hsorted'.2.1).1 y hya
          omega
    rw [Option.bind_some, Option.bind_some, push]
    dsimp only
    rw [if_neg hkept, if_neg hx]

theorem latest_push {n threshold height : ℕ} {v : Option υ} (hs : s.UpTo n) (hn : n < height) :
    (s.push height threshold v).latest = v := by
  have hkept : height ∉ (s.heights.filter (· ≤ threshold)).drop 1 := by
    intro hdrop
    have hmem := (List.mem_filter.mp (List.mem_of_mem_drop hdrop)).1
    have hle := hs.le height hmem
    omega
  have hnone := hs.value_eq_none hn
  rw [latest, push, List.cons_append, List.head?_cons, Option.bind_some]
  dsimp only
  rw [if_neg hkept, if_pos rfl, hnone, Option.or_none]

/-- What is written above the threshold is read back, whatever was there. -/
theorem latest_push_some {threshold height : ℕ} {v : υ} (ht : threshold < height) :
    (s.push height threshold (some v)).latest = some v := by
  have hkept : height ∉ (s.heights.filter (· ≤ threshold)).drop 1 := by
    intro hdrop
    have hle := (List.mem_filter.mp (List.mem_of_mem_drop hdrop)).2
    rw [decide_eq_true_eq] at hle
    omega
  rw [latest, push, List.cons_append, List.head?_cons, Option.bind_some]
  dsimp only
  rw [if_neg hkept, if_pos rfl, Option.some_or]

theorem UpTo.push {n threshold height : ℕ} {v : Option υ} (hs : s.UpTo n) (hn : n < height) :
    (s.push height threshold v).UpTo height := by
  have hsub : List.Sublist ((s.heights.filter (threshold < ·)) ++
      ((s.heights.filter (· ≤ threshold)).head?).toList) s.heights := by
    conv_rhs => rw [← filter_append_filter hs.sorted threshold]
    refine (List.Sublist.refl _).append ?_
    rcases s.heights.filter (· ≤ threshold) with _ | ⟨x, rest⟩
    · exact List.Sublist.refl _
    · exact List.Sublist.cons_cons x (List.nil_sublist rest)
  have hmem : ∀ x ∈ (s.heights.filter (threshold < ·)) ++
      ((s.heights.filter (· ≤ threshold)).head?).toList, x < height := by
    intro x hx
    have hle := hs.le x (hsub.subset hx)
    omega
  refine ⟨?_, ?_, ?_⟩
  · rw [History.push, List.cons_append, List.pairwise_cons]
    exact ⟨hmem, hs.sorted.sublist hsub⟩
  · intro h hh
    rw [History.push, List.cons_append, List.mem_cons] at hh
    rcases hh with rfl | hh
    · exact Nat.le_refl _
    · exact Nat.le_of_lt (hmem h hh)
  · intro h hsome
    rw [History.push] at hsome ⊢
    dsimp only at hsome ⊢
    rw [List.cons_append, List.mem_cons]
    by_cases hh : h = height
    · exact .inl hh
    · refine .inr ?_
      by_cases hdrop : h ∈ (s.heights.filter (· ≤ threshold)).drop 1
      · rw [if_pos hdrop] at hsome
        exact absurd hsome (by simp)
      · rw [if_neg hdrop, if_neg hh] at hsome
        have hin := hs.written h hsome
        rw [← filter_append_filter hs.sorted threshold, List.mem_append] at hin
        rw [List.mem_append]
        rcases hin with hin | hin
        · exact .inl hin
        · refine .inr ?_
          rcases hb : s.heights.filter (· ≤ threshold) with _ | ⟨y, rest⟩
          · rw [hb] at hin
            exact absurd hin (by simp)
          · rw [hb, List.drop_one, List.tail_cons] at hdrop
            rw [hb, List.mem_cons] at hin
            rcases hin with rfl | hin
            · simp
            · exact absurd hin hdrop

/-! ## 3. Taking heights out -/

/-- Dropping a later height does not change what a height left. -/
theorem asOf_drop {k height : ℕ} (hk : k < height) : (s.drop height).asOf k = s.asOf k := by
  have hfind : (s.heights.filter (· ≠ height)).find? (· ≤ k) = s.heights.find? (· ≤ k) := by
    rw [List.find?_filter]
    congr 1
    funext x
    by_cases hx : x ≤ k
    · have hne : x ≠ height := by omega
      simp [hx, hne]
    · simp [hx]
  rw [asOf, asOf, drop, hfind]
  rcases hx : s.heights.find? (· ≤ k) with _ | x
  · rfl
  · have hle : x ≤ k := by simpa using List.find?_some hx
    have hne : x ≠ height := by omega
    rw [Option.bind_some, Option.bind_some]
    dsimp only
    rw [if_neg hne]

theorem UpTo.drop {n height : ℕ} (hs : s.UpTo n) : (s.drop height).UpTo n where
  sorted := hs.sorted.filter _
  le h hh := hs.le h (List.mem_filter.mp hh).1
  written h hsome := by
    rw [History.drop] at hsome ⊢
    dsimp only at hsome ⊢
    by_cases hh : h = height
    · rw [if_pos hh] at hsome
      exact absurd hsome (by simp)
    · rw [if_neg hh] at hsome
      rw [List.mem_filter]
      exact ⟨hs.written h hsome, by simpa using hh⟩

theorem not_mem_heights_drop (height : ℕ) : height ∉ (s.drop height).heights := by
  intro h
  have := (List.mem_filter.mp h).2
  simp at this

/-- A history without its last height ends before it. -/
theorem UpTo.drop_last {n : ℕ} (hs : s.UpTo (n + 1)) : (s.drop (n + 1)).UpTo n :=
  (hs.drop).pred (not_mem_heights_drop _)

/-! ## 4. Histories with an index

A store undoes a height by an index of what it changed there. If the index has every
height of a history, undoing by the index is dropping. -/

/-- A history up to a height, all of whose heights are in an index. -/
structure Tracked (s : History υ) (index : ℕ → Prop) (n : ℕ) : Prop where
  upTo : s.UpTo n
  indexed : ∀ h ∈ s.heights, index h

variable {index index' : ℕ → Prop}

theorem tracked_empty (n : ℕ) : (empty : History υ).Tracked index n where
  upTo := upTo_empty n
  indexed _ hh := absurd hh List.not_mem_nil

/-- A height at which nothing was written. -/
theorem Tracked.keep {n : ℕ} (hs : s.Tracked index n) (hindex : ∀ h ≤ n, index h → index' h) :
    s.Tracked index' (n + 1) where
  upTo := hs.upTo.mono (Nat.le_succ n)
  indexed h hh := hindex h (hs.upTo.le h hh) (hs.indexed h hh)

theorem heights_push_subset {height threshold h : ℕ} {v : Option υ}
    (hh : h ∈ (s.push height threshold v).heights) : h = height ∨ h ∈ s.heights := by
  rw [push, List.cons_append, List.mem_cons, List.mem_append, Option.mem_toList] at hh
  rcases hh with hh | hh | hh
  · exact .inl hh
  · exact .inr (List.mem_filter.mp hh).1
  · exact .inr (List.mem_filter.mp (List.mem_of_mem_head? hh)).1

/-- A height at which something was written, and indexed. -/
theorem Tracked.push {n threshold : ℕ} {v : Option υ} (hs : s.Tracked index n)
    (hindex : ∀ h ≤ n, index h → index' h) (hnew : index' (n + 1)) :
    (s.push (n + 1) threshold v).Tracked index' (n + 1) where
  upTo := hs.upTo.push (Nat.lt_succ_self n)
  indexed h hh := by
    rcases heights_push_subset hh with rfl | hold
    · exact hnew
    · exact hindex h (hs.upTo.le h hold) (hs.indexed h hold)

/-- The last height is in the index, and is dropped. -/
theorem Tracked.drop_last {n : ℕ} (hs : s.Tracked index (n + 1))
    (hindex : ∀ h ≤ n, index h → index' h) : (s.drop (n + 1)).Tracked index' n where
  upTo := hs.upTo.drop_last
  indexed h hh := by
    have hle := hs.upTo.drop_last.le h hh
    exact hindex h hle (hs.indexed h (List.mem_filter.mp hh).1)

/-- The last height is not in the index: nothing was written at it. -/
theorem Tracked.pred {n : ℕ} (hs : s.Tracked index (n + 1)) (hn : ¬ index (n + 1))
    (hindex : ∀ h ≤ n, index h → index' h) : s.Tracked index' n := by
  have hupTo : s.UpTo n := hs.upTo.pred fun hmem => hn (hs.indexed _ hmem)
  exact ⟨hupTo, fun h hh => hindex h (hupTo.le h hh) (hs.indexed h hh)⟩

end History
