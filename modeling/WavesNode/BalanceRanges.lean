/-
The least balance of a range.

A range of heights is answered from two histories that are written independently of each
other: each is cut to the range and the last height before it (`slice`), and the two are
merged into pairs. `mem_merge_iff` says what the pairs are: exactly the pairs of heights that
the two balances of some height of the range were written at. The least over the pairs is then
the least over the heights, for any value that is read from both.

What a height left is what the database answered when its block was appended. `Recorded` is
a run that keeps these databases beside it, and the caches of `balanceSnapshots` are part of
its state. Two things end a history early: a rollback that does not find a lease balance, and
the threshold of `updateHistory`, which by design forgets all but one height further below the
last block than a rollback and a generating balance reach (`range_forgotten`).
-/
import WavesNode.BalanceStability

set_option autoImplicit false

namespace WavesNode

/-! ## 1. The heights of a range -/

namespace LevelDBWriter

section

variable {from_ to_ x y h : ℕ} {l l' : List ℕ}

/-- A slice: descending heights of a range, and at last the one the range begins with. -/
inductive Spans (from_ : ℕ) : List ℕ → Prop
  | base {b : ℕ} : b ≤ from_ → Spans from_ [b]
  | above {x y : ℕ} {l : List ℕ} :
    from_ < x → y < x → Spans from_ (y :: l) → Spans from_ (x :: y :: l)

/-- The heights after the first lie below it. -/
theorem Spans.lt (hl : Spans from_ (x :: l)) : ∀ z ∈ l, z < x := by
  induction l generalizing x with
  | nil =>
    intro z hz
    cases hz
  | cons y l ih =>
    obtain _ | ⟨-, hlt, hrest⟩ := hl
    intro z hz
    rcases List.mem_cons.mp hz with rfl | hz
    · exact hlt
    · exact Nat.lt_trans (ih hrest z hz) hlt

/-- The height of a slice that a height of the range has its value from. -/
def covering (l : List ℕ) (h : ℕ) : ℕ := (l.find? (· ≤ h)).getD 1

theorem covering_cons_of_le (hx : x ≤ h) : covering (x :: l) h = x := by
  rw [covering, List.find?_cons_of_pos (by rw [decide_eq_true_eq]; exact hx)]
  rfl

theorem covering_cons_of_lt (hx : h < x) : covering (x :: l) h = covering l h := by
  rw [covering, List.find?_cons_of_neg (by rw [decide_eq_true_eq]; omega)]
  rfl

/-- Below the first height of two slices, a range is covered by what remains of them. -/
theorem exists_covering_iff {p : ℕ × ℕ} {u v : ℕ} {k k' : List ℕ} (hfrom : from_ < x)
    (hto : x ≤ to_) (htop : ∀ h, x ≤ h → covering l h = u ∧ covering l' h = v)
    (hrest : ∀ h, h < x → covering l h = covering k h ∧ covering l' h = covering k' h) :
    (∃ h, from_ ≤ h ∧ h ≤ to_ ∧ covering l h = p.1 ∧ covering l' h = p.2) ↔
      p = (u, v) ∨ ∃ h, from_ ≤ h ∧ h ≤ x - 1 ∧ covering k h = p.1 ∧ covering k' h = p.2 := by
  constructor
  · rintro ⟨h, hle, hh, hfirst, hsecond⟩
    by_cases hx : x ≤ h
    · left
      obtain ⟨h1, h2⟩ := htop h hx
      rw [Prod.ext_iff]
      exact ⟨hfirst.symm.trans h1, hsecond.symm.trans h2⟩
    · right
      obtain ⟨h1, h2⟩ := hrest h (by omega)
      exact ⟨h, hle, by omega, h1.symm.trans hfirst, h2.symm.trans hsecond⟩
  · rintro (rfl | ⟨h, hle, hh, hfirst, hsecond⟩)
    · exact ⟨x, by omega, hto, htop x (Nat.le_refl x)⟩
    · obtain ⟨h1, h2⟩ := hrest h (by omega)
      exact ⟨h, hle, by omega, h1.trans hfirst, h2.trans hsecond⟩

theorem covering_base {b : ℕ} (hb : b ≤ from_) (hh : from_ ≤ h) : covering [b] h = b :=
  covering_cons_of_le (by omega)

/-- **What two slices are merged into**: the pairs of heights that cover the heights of the
range. -/
theorem mem_merge_iff {p : ℕ × ℕ} :
    ∀ (n : ℕ) {l l' : List ℕ} {to_ : ℕ}, l.length + l'.length ≤ n → Spans from_ l →
      Spans from_ l' → from_ ≤ to_ → (∀ x ∈ l, x ≤ to_) → (∀ x ∈ l', x ≤ to_) →
      (p ∈ merge l l' ↔
        ∃ h, from_ ≤ h ∧ h ≤ to_ ∧ covering l h = p.1 ∧ covering l' h = p.2) := by
  intro n
  induction n with
  | zero =>
    intro l l' to_ hlength hl
    cases hl <;> simp at hlength
  | succ n ih =>
    intro l l' to_ hlength hl hl' hle hto hto'
    -- what follows a height lies below it
    have hbelow : ∀ {x y : ℕ} {l : List ℕ}, y < x → Spans from_ (y :: l) →
        ∀ z ∈ y :: l, z ≤ x - 1 := by
      intro x y l hlt hspans z hz
      rcases List.mem_cons.mp hz with rfl | hz
      · omega
      · have := hspans.lt z hz
        omega
    have hmem : ∀ {q : ℕ × ℕ} {L : List (ℕ × ℕ)} {C : Prop}, (p ∈ L ↔ C) →
        (p ∈ q :: L ↔ p = q ∨ C) := by
      intro q L C hC
      rw [List.mem_cons, hC]
    -- the later of the two first heights is taken off, or both of them
    cases hl with
    | @base b hb =>
      cases hl' with
      | @base b' hb' =>
        have hmerge : merge [b] [b'] = [(b, b')] := rfl
        rw [hmerge, List.mem_singleton]
        constructor
        · rintro rfl
          exact ⟨from_, Nat.le_refl _, hle, covering_base hb (Nat.le_refl _),
            covering_base hb' (Nat.le_refl _)⟩
        · rintro ⟨h, hh, -, hfirst, hsecond⟩
          rw [covering_base hb hh] at hfirst
          rw [covering_base hb' hh] at hsecond
          exact Prod.ext hfirst.symm hsecond.symm
      | @above x y l' hx hlt hrest =>
        rw [merge_cons_right (by omega : b < x), exists_covering_iff hx
          (hto' x List.mem_cons_self) (fun h hh => ⟨covering_cons_of_le (by omega),
            covering_cons_of_le hh⟩) fun h hh => ⟨rfl, covering_cons_of_lt hh⟩]
        refine hmem (ih ?_ (.base hb) hrest (by omega) ?_ (hbelow hlt hrest))
        · simp only [List.length_cons, List.length_nil] at hlength ⊢
          omega
        · intro z hz
          rw [List.mem_singleton] at hz
          omega
    | @above x y l hx hlt hrest =>
      cases hl' with
      | @base b' hb' =>
        rw [merge_cons_left (by omega : b' < x), exists_covering_iff hx
          (hto x List.mem_cons_self) (fun h hh => ⟨covering_cons_of_le hh,
            covering_cons_of_le (by omega)⟩) fun h hh => ⟨covering_cons_of_lt hh, rfl⟩]
        refine hmem (ih ?_ hrest (.base hb') (by omega) (hbelow hlt hrest) ?_)
        · simp only [List.length_cons, List.length_nil] at hlength ⊢
          omega
        · intro z hz
          rw [List.mem_singleton] at hz
          omega
      | @above x' y' l' hx' hlt' hrest' =>
        have hfull : Spans from_ (x :: y :: l) := .above hx hlt hrest
        have hfull' : Spans from_ (x' :: y' :: l') := .above hx' hlt' hrest'
        rcases Nat.lt_trichotomy x' x with hlater | rfl | hearlier
        · rw [merge_cons_left hlater, exists_covering_iff hx (hto x List.mem_cons_self)
            (fun h hh => ⟨covering_cons_of_le hh, covering_cons_of_le (by omega)⟩)
            fun h hh => ⟨covering_cons_of_lt hh, rfl⟩]
          refine hmem (ih ?_ hrest hfull' (by omega) (hbelow hlt hrest) (hbelow hlater hfull'))
          simp only [List.length_cons] at hlength ⊢
          omega
        · rw [merge_cons_cons, exists_covering_iff hx (hto x' List.mem_cons_self)
            (fun h hh => ⟨covering_cons_of_le hh, covering_cons_of_le hh⟩)
            fun h hh => ⟨covering_cons_of_lt hh, covering_cons_of_lt hh⟩]
          refine hmem (ih ?_ hrest hrest' (by omega) (hbelow hlt hrest) (hbelow hlt' hrest'))
          simp only [List.length_cons] at hlength ⊢
          omega
        · rw [merge_cons_right hearlier, exists_covering_iff hx' (hto' x' List.mem_cons_self)
            (fun h hh => ⟨covering_cons_of_le (by omega), covering_cons_of_le hh⟩)
            fun h hh => ⟨rfl, covering_cons_of_lt hh⟩]
          refine hmem (ih ?_ hfull hrest' (by omega) (hbelow hearlier hfull) (hbelow hlt' hrest'))
          simp only [List.length_cons] at hlength ⊢
          omega

/-- A slice of descending heights spans its range. -/
theorem spans_slice (hl : l.Pairwise (· > ·)) (hle : from_ ≤ to_) (hpos : 1 ≤ from_) :
    Spans from_ (slice l from_ to_) := by
  rw [History.slice_of_sorted hl hle]
  have hbase : (l.find? (· ≤ from_)).getD 1 ≤ from_ := by
    rcases hx : l.find? (· ≤ from_) with _ | x
    · exact hpos
    · have hle' := List.find?_some hx
      rw [decide_eq_true_eq] at hle'
      exact hle'
  have habove : (l.filter fun h => from_ < h ∧ h ≤ to_).Pairwise (· > ·) := hl.filter _
  have hin : ∀ x ∈ l.filter (fun h => from_ < h ∧ h ≤ to_), from_ < x := fun x hx => by
    have hx' := (List.mem_filter.mp hx).2
    rw [decide_eq_true_eq] at hx'
    exact hx'.1
  generalize l.filter (fun h => from_ < h ∧ h ≤ to_) = above at habove hin
  induction above with
  | nil => exact .base hbase
  | cons x rest ih =>
    rw [List.pairwise_cons] at habove
    have hx := hin x List.mem_cons_self
    have hrest := ih habove.2 fun y hy => hin y (List.mem_cons_of_mem _ hy)
    cases rest with
    | nil => exact .above hx (by omega) hrest
    | cons y rest => exact .above hx (habove.1 y List.mem_cons_self) hrest

/-- In its range a slice covers what all the heights cover. -/
theorem covering_slice (hl : l.Pairwise (· > ·)) (hfrom : from_ ≤ h) (hto : h ≤ to_) :
    covering (slice l from_ to_) h = covering l h := by
  rw [History.slice_of_sorted hl (Nat.le_trans hfrom hto)]
  have hbase : ∀ b, covering [b] h = b ∨ h < b := fun b => by
    by_cases hb : b ≤ h
    · exact .inl (covering_cons_of_le hb)
    · exact .inr (by omega)
  induction l with
  | nil =>
    rw [List.filter_nil, List.nil_append]
    rcases hbase 1 with h1 | h1
    · exact h1
    · exact covering_cons_of_lt h1
  | cons x rest ih =>
    rw [List.pairwise_cons] at hl
    by_cases hx : from_ < x
    · rw [List.find?_cons_of_neg (by rw [decide_eq_true_eq]; omega)]
      by_cases hxh : x ≤ h
      · rw [List.filter_cons_of_pos (by rw [decide_eq_true_eq]; omega), List.cons_append,
          covering_cons_of_le hxh, covering_cons_of_le hxh]
      · -- a height of the range above the one that is asked for, or a height above the range
        rw [covering_cons_of_lt (x := x) (l := rest) (by omega), ← ih hl.2]
        by_cases hxto : x ≤ to_
        · rw [List.filter_cons_of_pos (by rw [decide_eq_true_eq]; omega), List.cons_append,
            covering_cons_of_lt (by omega)]
        · rw [List.filter_cons_of_neg (by rw [decide_eq_true_eq]; omega)]
    · -- nothing that is left lies above the beginning of the range
      have hnone : (x :: rest).filter (fun h => from_ < h ∧ h ≤ to_) = [] := by
        rw [List.filter_eq_nil_iff]
        intro y hy
        rw [decide_eq_true_eq]
        rcases List.mem_cons.mp hy with rfl | hy
        · omega
        · have := hl.1 y hy
          omega
      have hxh : x ≤ h := by omega
      rw [hnone, List.nil_append, List.find?_cons_of_pos (by rw [decide_eq_true_eq]; omega),
        Option.getD_some, covering_cons_of_le hxh, covering_cons_of_le hxh]

end

end LevelDBWriter

end WavesNode

namespace History

open WavesNode LevelDBWriter

/-- What stands at the height that covers another is what that height left. -/
theorem value_covering {υ : Type} {s : History υ} {n h : ℕ} (hs : s.UpTo n) (hpos : 1 ≤ h) :
    s.value (covering s.heights h) = s.asOf h := by
  rw [covering, asOf]
  rcases hfind : s.heights.find? (· ≤ h) with _ | x
  · -- nothing was written up to there, so there is nothing at the first height
    rw [Option.getD_none, Option.bind_none]
    rcases hv : s.value 1 with _ | v
    · rfl
    · have hmem := hs.written 1 (by rw [hv]; rfl)
      have hnot := List.find?_eq_none.mp hfind 1 hmem
      rw [decide_eq_true_eq] at hnot
      exact absurd hpos hnot
  · rfl

/-- A height that a push leaves has what it had. -/
theorem mem_heights_push {υ : Type} {s : History υ} {n height threshold h : ℕ} {v : Option υ}
    (hs : s.UpTo n) (hh : h ∈ (s.push height threshold v).heights) (hne : h ≠ height) :
    h ∈ s.heights ∧ (s.push height threshold v).value h = s.value h := by
  have hkept : h ∈ s.heights ∧ h ∉ (s.heights.filter (· ≤ threshold)).drop 1 := by
    rw [History.push, List.cons_append, List.mem_cons, List.mem_append] at hh
    rcases hh with rfl | hh | hh
    · exact absurd rfl hne
    · obtain ⟨hmem, habove⟩ := List.mem_filter.mp hh
      refine ⟨hmem, fun hdrop => ?_⟩
      have hbelow := (List.mem_filter.mp (List.mem_of_mem_drop hdrop)).2
      rw [decide_eq_true_eq] at habove hbelow
      omega
    · have hsorted := hs.sorted.filter (· ≤ threshold)
      have hmem := (List.mem_filter.mp (List.mem_of_mem_head? (Option.mem_toList.mp hh))).1
      refine ⟨hmem, fun hdrop => ?_⟩
      rcases hb : s.heights.filter (· ≤ threshold) with _ | ⟨y, rest⟩
      · rw [hb] at hdrop
        cases hdrop
      · rw [hb, List.drop_one, List.tail_cons] at hdrop
        rw [hb, List.pairwise_cons] at hsorted
        rw [hb, List.head?_cons, Option.mem_toList] at hh
        have := hsorted.1 h hdrop
        have := Option.some.inj hh
        omega
  refine ⟨hkept.1, ?_⟩
  rw [push]
  dsimp only
  rw [if_neg hkept.2, if_neg hne]

/-- A push forgets only what lies at its threshold or below, and not all of it. -/
theorem forgotten_push {υ : Type} {s : History υ} {height threshold h : ℕ} {v : Option υ}
    (hh : h ∈ s.heights) : h ∈ (s.push height threshold v).heights ∨
      h ≤ threshold ∧ ∃ x ∈ (s.push height threshold v).heights, x ≤ threshold := by
  rw [History.push, List.cons_append]
  by_cases habove : threshold < h
  · exact .inl (List.mem_cons_of_mem _ (List.mem_append_left _
      (List.mem_filter.mpr ⟨hh, decide_eq_true habove⟩)))
  · refine .inr ⟨by omega, ?_⟩
    have hmem : h ∈ s.heights.filter (· ≤ threshold) :=
      List.mem_filter.mpr ⟨hh, decide_eq_true (by omega)⟩
    rcases hb : s.heights.filter (· ≤ threshold) with _ | ⟨y, rest⟩
    · rw [hb] at hmem
      cases hmem
    · have hy : y ∈ s.heights.filter (· ≤ threshold) := by
        rw [hb]
        exact List.mem_cons_self
      refine ⟨y, List.mem_cons_of_mem _ (List.mem_append_right _ List.mem_cons_self), ?_⟩
      have hle := (List.mem_filter.mp hy).2
      rwa [decide_eq_true_eq] at hle

/-- A history of all heights from one on, as far down as nothing is forgotten, stays one. -/
theorem mem_heights_push_iff {υ : Type} {s : History υ} {n first depth : ℕ} {v : Option υ}
    (hs : s.UpTo n) (hdepth : 1 ≤ depth) (hfirst : 2 ≤ first)
    (hheights : ∀ h, h ∈ s.heights ↔ first ≤ h ∧ h ≤ n ∧ n ≤ h + depth) (hn : first ≤ n + 1) (h : ℕ) :
    h ∈ (s.push (n + 1) (n + 1 - depth) v).heights ↔ first ≤ h ∧ h ≤ n + 1 ∧ n + 1 ≤ h + depth := by
  -- what is kept at the threshold or below it is the threshold
  have hhead : ∀ x, (s.heights.filter (· ≤ n + 1 - depth)).head? = some x ↔
      x = n + 1 - depth ∧ first ≤ n + 1 - depth := by
    intro x
    have hsorted := hs.sorted.filter (· ≤ n + 1 - depth)
    have hfilter : ∀ y, y ∈ s.heights.filter (· ≤ n + 1 - depth) ↔
        (first ≤ y ∧ y ≤ n ∧ n ≤ y + depth) ∧ y ≤ n + 1 - depth := by
      intro y
      rw [List.mem_filter, hheights, decide_eq_true_eq]
    generalize s.heights.filter (· ≤ n + 1 - depth) = below at hsorted hfilter
    rcases below with _ | ⟨y, rest⟩
    · have hnot := (hfilter (n + 1 - depth)).mpr
      constructor
      · intro hx
        cases hx
      · rintro ⟨-, hle⟩
        have hmem := hnot ⟨⟨hle, by omega, by omega⟩, Nat.le_refl _⟩
        cases hmem
    · have hy := (hfilter y).mp List.mem_cons_self
      rw [List.pairwise_cons] at hsorted
      have htop : first ≤ n + 1 - depth → y = n + 1 - depth := by
        intro hle
        have hmem := (hfilter (n + 1 - depth)).mpr ⟨⟨hle, by omega, by omega⟩, Nat.le_refl _⟩
        rcases List.mem_cons.mp hmem with hmem | hmem
        · exact hmem.symm
        · have := hsorted.1 _ hmem
          omega
      rw [List.head?_cons, Option.some.injEq]
      constructor
      · rintro rfl
        exact ⟨htop (by omega), by omega⟩
      · rintro ⟨rfl, hle⟩
        exact htop hle
  rw [push, List.cons_append, List.mem_cons, List.mem_append, List.mem_filter, hheights,
    decide_eq_true_eq, Option.mem_toList, hhead]
  omega

/-! ## 2. Values remembered by height -/

/-- What a memory of heights may hold beside a history that ends at a height: what stands
there, nothing at the first height for a history that begins later, and anything at a height
that was forgotten. -/
def Remembered {υ β : Type} (s : History υ) (read : Option υ → β) (forgotten n : ℕ)
    (cache : ℕ → Option β) : Prop :=
  ∀ h v, cache h = some v → h ≤ n ∧ (h ∈ s.heights → v = read (s.value h)) ∧
    (h ∉ s.heights → h = 1 ∧ v = read none ∨ h ≤ forgotten ∧ ∃ x ∈ s.heights, x ≤ forgotten)

namespace Remembered

variable {υ β : Type} {s s' : History υ} {read : Option υ → β} {forgotten forgotten' n m : ℕ}
  {cache cache' : ℕ → Option β}

theorem pushSome (h : s.Remembered read forgotten n cache) (hs : s.UpTo n) {threshold : ℕ}
    (hthreshold : threshold ≤ forgotten') (hle : forgotten ≤ forgotten') (v : Option υ) :
    (s.pushSome (n + 1) threshold v).Remembered read forgotten' (n + 1) cache := by
  intro k x hk
  obtain ⟨hkn, hmem, hnot⟩ := h k x hk
  rcases v with _ | v
  · refine ⟨Nat.le_succ_of_le hkn, hmem, fun hk' => ?_⟩
    rcases hnot hk' with hfirst | ⟨hforgotten, y, hy, hy'⟩
    · exact .inl hfirst
    · exact .inr ⟨Nat.le_trans hforgotten hle, y, hy, Nat.le_trans hy' hle⟩
  · rw [History.pushSome]
    refine ⟨Nat.le_succ_of_le hkn, fun hk' => ?_, fun hk' => ?_⟩
    · obtain ⟨hold, hvalue⟩ := mem_heights_push hs hk' (by omega)
      rw [hvalue]
      exact hmem hold
    · by_cases hold : k ∈ s.heights
      · rcases forgotten_push hold with hnew | ⟨hk'', y, hy, hy'⟩
        · exact absurd hnew hk'
        · exact .inr ⟨Nat.le_trans hk'' hthreshold, y, hy, Nat.le_trans hy' hthreshold⟩
      · rcases hnot hold with hfirst | ⟨hforgotten, y, hy, hy'⟩
        · exact .inl hfirst
        · refine .inr ⟨Nat.le_trans hforgotten hle, ?_⟩
          rcases forgotten_push hy with hnew | ⟨-, z, hz, hz'⟩
          · exact ⟨y, hnew, Nat.le_trans hy' hle⟩
          · exact ⟨z, hz, Nat.le_trans hz' hthreshold⟩

/-- Heights above a later end are taken out, of the history and of the memory. -/
theorem cut (h : s.Remembered read forgotten n cache)
    (hs : ∀ k ≤ m, (k ∈ s'.heights ↔ k ∈ s.heights) ∧ s'.value k = s.value k)
    (hcache : ∀ k v, cache' k = some v → cache k = some v ∧ (k ∈ s.heights → k ≤ m))
    (hforgotten : forgotten ≤ m) (hm : 1 ≤ m ∨ n ≤ m) :
    s'.Remembered read forgotten m cache' := by
  intro k x hk
  obtain ⟨hold, hin⟩ := hcache k x hk
  obtain ⟨hkn, hmem, hnot⟩ := h k x hold
  have hkm : k ≤ m := by
    by_cases hk' : k ∈ s.heights
    · exact hin hk'
    · rcases hnot hk' with ⟨rfl, -⟩ | ⟨hle, -⟩
      · omega
      · exact Nat.le_trans hle hforgotten
  obtain ⟨hiff, hvalue⟩ := hs k hkm
  refine ⟨hkm, fun hk' => ?_, fun hk' => ?_⟩
  · rw [hvalue]
    exact hmem (hiff.mp hk')
  · rcases hnot (fun hk'' => hk' (hiff.mpr hk'')) with hfirst | ⟨hle, y, hy, hy'⟩
    · exact .inl hfirst
    · exact .inr ⟨hle, y, (hs y (Nat.le_trans hy' hforgotten)).1.mpr hy, hy'⟩

/-- Heights of the history, and the first height where it begins later, are read. -/
theorem read_through (h : s.Remembered read forgotten n cache) (hs : s.UpTo n)
    (hcache : ∀ k v, cache' k = some v → cache k = some v ∨
      v = (cache k).getD (read (s.value k)) ∧ (k ∈ s.heights ∨ k = 1 ∧ 1 ≤ n)) :
    s.Remembered read forgotten n cache' := by
  intro k x hk
  rcases hcache k x hk with hold | ⟨hx, hin⟩
  · exact h k x hold
  · rcases hc : cache k with _ | y
    · rw [hc, Option.getD_none] at hx
      refine ⟨?_, fun _ => hx, fun hk' => .inl ?_⟩
      · rcases hin with hin | ⟨rfl, hn⟩
        · exact hs.le k hin
        · exact hn
      · rcases hin with hin | ⟨rfl, -⟩
        · exact absurd hin hk'
        · have hnone : s.value 1 = none := by
            rw [← Option.not_isSome_iff_eq_none]
            exact fun hsome => hk' (hs.written 1 hsome)
          rw [hnone] at hx
          exact ⟨rfl, hx⟩
    · rw [hc, Option.getD_some] at hx
      rw [hx]
      exact h k y hc

/-- In a range that begins above what was forgotten, a read is right: what is remembered of a
height that covers another is what stands there. -/
theorem getD_covering (h : s.Remembered read forgotten n cache) (hs : s.UpTo n) {from_ k : ℕ}
    (hfrom : forgotten ≤ from_) (hk : from_ ≤ k) :
    (cache (covering s.heights k)).getD (read (s.value (covering s.heights k))) =
      read (s.value (covering s.heights k)) := by
  rcases hc : cache (covering s.heights k) with _ | v
  · rfl
  · rw [Option.getD_some]
    obtain ⟨-, hmem, hnot⟩ := h _ v hc
    by_cases hin : covering s.heights k ∈ s.heights
    · exact hmem hin
    · -- no height of the history is as low as the range
      have hfind : s.heights.find? (· ≤ k) = none := by
        rcases hf : s.heights.find? (· ≤ k) with _ | x
        · rfl
        · have hx := List.mem_of_find?_eq_some hf
          rw [covering, hf] at hin
          exact absurd hx hin
      rcases hnot hin with ⟨-, hv⟩ | ⟨-, x, hx, hle⟩
      · have hnone : s.value (covering s.heights k) = none := by
          rw [← Option.not_isSome_iff_eq_none]
          exact fun hsome => hin (hs.written _ hsome)
        rw [hnone, hv]
      · have hno := List.find?_eq_none.mp hfind x hx
        rw [decide_eq_true_eq] at hno
        omega

end Remembered

end History

namespace WavesNode

/-! ## 3. The least of the snapshots -/

section

theorem min?_congr {l l' : List Long} (h : ∀ x, x ∈ l ↔ x ∈ l') : l.min? = l'.min? := by
  rcases hl' : l'.min? with _ | x
  · rw [List.min?_eq_none_iff] at hl' ⊢
    rw [List.eq_nil_iff_forall_not_mem]
    intro x hx
    have hx' := (h x).mp hx
    rw [hl'] at hx'
    cases hx'
  · rw [List.min?_eq_some_iff] at hl' ⊢
    exact ⟨(h x).mpr hl'.1, fun y hy => hl'.2 y ((h y).mp hy)⟩

end

/-! ## 4. Reading through the caches of heights -/

/-- A database with the two caches of `balanceSnapshots`. -/
structure SnapshotWriter where
  writer : LevelDBWriter
  balanceAtHeightCache : ℕ → Address → Option Long
  leaseBalanceAtHeightCache : ℕ → Address → Option LeaseBalance

namespace SnapshotWriter

def empty (settings : BlockchainSettings) (dbSettings : DBSettings) : SnapshotWriter where
  writer := .empty settings dbSettings
  balanceAtHeightCache _ _ := none
  leaseBalanceAtHeightCache _ _ := none

variable (w : SnapshotWriter)

/-- `balanceAtHeightCache.get`. -/
def balanceAt (address : Address) (height : ℕ) : Long :=
  (w.balanceAtHeightCache height address).getD
    (((w.writer.db.wavesBalance address).value height).getD 0)

/-- `leaseBalanceAtHeightCache.get`. -/
def leaseBalanceAt (address : Address) (height : ℕ) : LeaseBalance :=
  (w.leaseBalanceAtHeightCache height address).getD
    (((w.writer.db.leaseBalance address).value height).getD LeaseBalance.empty)

/-- The heights that are asked for. -/
def heightsAsked (address : Address) (from_ : ℕ) (to_ : BlockId) : List (ℕ × ℕ) :=
  let toHeight := (w.writer.heightOf to_).getD w.writer.height
  let wbh := LevelDBWriter.slice (w.writer.db.wavesBalance address).heights from_ toHeight
  let lbh := LevelDBWriter.slice (w.writer.db.leaseBalance address).heights from_ toHeight
  LevelDBWriter.merge wbh lbh

/-- `balanceSnapshots`. -/
def balanceSnapshots (address : Address) (from_ : ℕ) (to_ : BlockId) : List BalanceSnapshot :=
  if address ∈ w.writer.db.addressId then
    (w.heightsAsked address from_ to_).map fun (wh, lh) =>
      let wb := w.balanceAt address wh
      let lb := w.leaseBalanceAt address lh
      ⟨max wh lh, wb, lb.in_, lb.out⟩
  else [⟨1, 0, 0, 0⟩]

/-- What `balanceSnapshots` leaves in the caches. -/
def queried (address : Address) (from_ : ℕ) (to_ : BlockId) : SnapshotWriter :=
  if address ∈ w.writer.db.addressId then
    let heights := w.heightsAsked address from_ to_
    { w with
      balanceAtHeightCache := fun h a =>
        if a = address ∧ h ∈ heights.map Prod.fst then some (w.balanceAt address h)
        else w.balanceAtHeightCache h a
      leaseBalanceAtHeightCache := fun h a =>
        if a = address ∧ h ∈ heights.map Prod.snd then some (w.leaseBalanceAt address h)
        else w.leaseBalanceAtHeightCache h a }
  else w

/-- What a rollback drops from a cache: the heights it discards, at the addresses it discards
there. -/
def invalidated {α : Type} (cache : ℕ → Address → Option α) (targetBlockId : BlockId) :
    ℕ → Address → Option α :=
  match w.writer.db.heightOf targetBlockId with
  | none => cache
  | some targetHeight => fun h a =>
    if (targetHeight < h ∧ h ≤ w.writer.height) ∧ a ∈ w.writer.db.changedAddresses h then none
    else cache h a

/-- What happens to a database and these caches. -/
inductive Event where
  | writer (e : LevelDBWriter.Event)
  | balanceSnapshots (address : Address) (from_ : ℕ) (to_ : BlockId)
  | evictBalance (height : ℕ) (address : Address)
  | evictLeaseBalance (height : ℕ) (address : Address)

variable [Crypto] [PBTransactionSerializer] [Ride] [BlockSerializer]

def Event.Leads (w w' : SnapshotWriter) : Event → Prop
  | .writer e => e.Leads w.writer w'.writer ∧
    match e with
    | .rollbackTo id =>
      w'.balanceAtHeightCache = w.invalidated w.balanceAtHeightCache id ∧
        w'.leaseBalanceAtHeightCache = w.invalidated w.leaseBalanceAtHeightCache id
    | .restart =>
      (∀ h a, w'.balanceAtHeightCache h a = none) ∧ ∀ h a, w'.leaseBalanceAtHeightCache h a = none
    | _ =>
      w'.balanceAtHeightCache = w.balanceAtHeightCache ∧
        w'.leaseBalanceAtHeightCache = w.leaseBalanceAtHeightCache
  | .balanceSnapshots address from_ to_ => w.queried address from_ to_ = w'
  | .evictBalance height address =>
    { w with
      balanceAtHeightCache := fun h a =>
        if h = height ∧ a = address then none else w.balanceAtHeightCache h a } = w'
  | .evictLeaseBalance height address =>
    { w with
      leaseBalanceAtHeightCache := fun h a =>
        if h = height ∧ a = address then none else w.leaseBalanceAtHeightCache h a } = w'

/-- The database each block left, after one more event. -/
def recorded (past : ℕ → LevelDBWriter) (w' : SnapshotWriter) : Event → ℕ → LevelDBWriter
  | .writer (.append _ _ _ _) => Function.update past w'.writer.height w'.writer
  | _ => past

/-- Runs that keep the database as it stood after the block of each height. Every event of the
database meets a condition on it and on the database before it. -/
inductive Recorded (Q : LevelDBWriter → LevelDBWriter.Event → Prop)
    (settings : BlockchainSettings) (dbSettings : DBSettings) :
    SnapshotWriter → (ℕ → LevelDBWriter) → Prop
  | empty : Recorded Q settings dbSettings (.empty settings dbSettings) fun _ =>
      .empty settings dbSettings
  | step {w w' : SnapshotWriter} {past : ℕ → LevelDBWriter} {e : Event} :
    Recorded Q settings dbSettings w past → (∀ e', e = .writer e' → Q w.writer e') →
    e.Leads w w' → Recorded Q settings dbSettings w' (recorded past w' e)

end SnapshotWriter

/-! ## 5. What a run keeps -/

namespace LevelDBWriter

section

variable [Crypto] [PBTransactionSerializer] [BlockSerializer] [Ride]
variable {υ β : Type} {K : Kept υ β} {Q : LevelDBWriter → Event → Prop} {w v : LevelDBWriter}

/-- The rounds of a rollback leave what stands at the height they end at and below. -/
theorem Kept.at_discardBlocks (hK : K.Lawful Q) {targetHeight h : ℕ} (hh : h ≤ targetHeight) :
    ∀ (w : LevelDBWriter) (n : ℕ),
      (h ∈ (K.history (discardBlocks targetHeight n w).db).heights ↔
        h ∈ (K.history w.db).heights) ∧
      (K.history (discardBlocks targetHeight n w).db).value h = (K.history w.db).value h
  | _, 0 => ⟨Iff.rfl, rfl⟩
  | w, n + 1 => by
    obtain ⟨hiff, hvalue⟩ := Kept.at_discardBlocks hK hh (w.discardBlock (targetHeight + n + 1)) n
    rw [LevelDBWriter.discardBlocks, hiff, hvalue]
    change (h ∈ (K.history (w.discardKeys (targetHeight + n + 1))).heights ↔ _) ∧
      (K.history (w.discardKeys (targetHeight + n + 1))).value h = _
    rcases hK.discard w (targetHeight + n + 1) with ⟨hhistory, -⟩ | ⟨-, hhistory, -⟩
    · have hne : h ≠ targetHeight + n + 1 := by omega
      rw [hhistory, History.drop]
      dsimp only
      rw [if_neg hne, List.mem_filter, decide_eq_true_eq]
      exact ⟨and_iff_left hne, rfl⟩
    · rw [hhistory]
      exact ⟨Iff.rfl, rfl⟩

omit [BlockSerializer] [Ride] in
/-- Where an accepted rollback ends. -/
theorem rollbackTo_target {id : BlockId} (hw : Sound w) (hindex : w.heightOf id = w.db.heightOf id)
    (h : w.rollbackTo id = .ok v) :
    ∃ targetHeight, w.db.heightOf id = some targetHeight ∧
      w.db.safeRollbackHeight < targetHeight ∧
      v.db = (discardBlocks targetHeight (w.height - targetHeight) w).db ∧
      v.height = min targetHeight w.height := by
  have hv := rollbackTo_eq_ok h
  unfold LevelDBWriter.rollbackTo at h
  rcases hid : w.heightOf id with _ | targetHeight
  · rw [hid] at h
    cases h
  · rw [hid] at h
    dsimp only at h
    split at h
    · rename_i hsafe
      have hid' : w.db.heightOf id = some targetHeight := by rw [← hindex, hid]
      have hroll : w.doRollback id = discardBlocks targetHeight (w.height - targetHeight) w := by
        rw [LevelDBWriter.doRollback, hid']
      refine ⟨targetHeight, hid', hsafe, by rw [hv, hroll], ?_⟩
      rw [hv, hroll]
      dsimp only
      by_cases ht : targetHeight ≤ w.height
      · rw [height_discardBlocks targetHeight w (w.height - targetHeight) (by rw [hw.height]; omega),
          Nat.min_eq_left ht]
      · have hzero : w.height - targetHeight = 0 := by omega
        rw [hzero, LevelDBWriter.discardBlocks, hw.height, Nat.min_eq_right (by omega)]
    · cases h

/-- What a run keeps of a value: its history ends with the chain, the memory of heights holds
what it may, and what a height left can be had back where nothing was forgotten. -/
structure Recalled (K : Kept υ β) (w : LevelDBWriter) (cache : ℕ → Option β)
    (past : ℕ → LevelDBWriter) : Prop where
  upTo : (K.history w.db).UpTo w.height
  remembered : (K.history w.db).Remembered K.read (w.db.safeRollbackHeight - 1000) w.height cache
  standing : ∀ h, 1 ≤ h → h ≤ w.height → w.db.safeRollbackHeight ≤ h + 1000 →
    K.read ((K.history w.db).asOf h) = K.answer (past h)

namespace Recalled

variable {cache cache' : ℕ → Option β} {past : ℕ → LevelDBWriter}

omit [BlockSerializer] [Ride] in
theorem append (h : Recalled K w cache past) {d : Diff} {carry : Long} {reward : Option Long}
    {block : Block} {x : Option υ}
    (hhistory : K.history (w.doAppend d carry reward block) =
      (K.history w.db).pushSome (w.height + 1)
        (w.height + 1 - (w.dbSettings.maxRollbackDepth + 1000)) x)
    (hcached : K.Cached (w.append d carry reward block)) :
    Recalled K (w.append d carry reward block) cache
      (Function.update past (w.height + 1) (w.append d carry reward block)) := by
  have hsafe : (w.append d carry reward block).db.safeRollbackHeight =
      max w.db.safeRollbackHeight (w.height + 1 - w.dbSettings.maxRollbackDepth) := rfl
  have hhistory' : K.history (w.append d carry reward block).db = (K.history w.db).pushSome
      (w.height + 1) (w.height + 1 - (w.dbSettings.maxRollbackDepth + 1000)) x := hhistory
  have hupTo : (K.history (w.append d carry reward block).db).UpTo (w.height + 1) := by
    rw [hhistory']
    rcases x with _ | x
    · exact h.upTo.mono (Nat.le_succ _)
    · exact h.upTo.push (Nat.lt_succ_self _)
  refine ⟨hupTo, ?_, fun k hpos hk hkept => ?_⟩
  · rw [hhistory', hsafe]
    exact h.remembered.pushSome h.upTo (by omega) (by omega) x
  · by_cases hnew : k = w.height + 1
    · rw [hnew, Function.update_self, hcached.answer_eq, hupTo.latest_eq_asOf]
    · have hk' : k ≤ w.height + 1 := hk
      rw [hsafe] at hkept
      rw [Function.update_of_ne hnew, ← h.standing k hpos (by omega) (by omega), hhistory']
      rcases x with _ | x
      · rfl
      · rw [History.pushSome, History.asOf_push h.upTo (Nat.lt_succ_self _) (by omega) (by omega)]

theorem rollbackTo (h : Recalled K w cache past) (hK : K.Lawful Q) (hw : Sound w) {id : BlockId}
    (hindex : w.heightOf id = w.db.heightOf id) (hroll : w.rollbackTo id = .ok v) (hupTo : (K.history v.db).UpTo v.height)
    (hcache : ∀ k x, cache' k = some x →
      cache k = some x ∧ (k ∈ (K.history w.db).heights → k ≤ v.height))
    (hle : w.db.safeRollbackHeight ≤ w.height) :
    Recalled K v cache' past := by
  have hsafe := safeRollbackHeight_rollbackTo hroll
  obtain ⟨targetHeight, hid, htarget, hdb, hheight⟩ := rollbackTo_target hw hindex hroll
  have htargetPos := hw.heightOf_pos id targetHeight hid
  have hsame : ∀ k ≤ v.height, (k ∈ (K.history v.db).heights ↔ k ∈ (K.history w.db).heights) ∧
      (K.history v.db).value k = (K.history w.db).value k := by
    intro k hk
    rw [hdb]
    exact Kept.at_discardBlocks hK (by omega) w _
  refine ⟨hupTo, ?_, fun k hk1 hk hkept => ?_⟩
  · rw [hsafe]
    exact h.remembered.cut hsame hcache (by omega) (by omega)
  · rw [hsafe] at hkept
    rw [← h.standing k hk1 (by omega) hkept, hdb, Kept.asOf_discardBlocks hK (by omega)]

omit [Crypto] [PBTransactionSerializer] [BlockSerializer] [Ride] in
/-- The same keys and height, and a memory that has lost something or read something. -/
theorem of_cache (h : Recalled K w cache past) (hdb : v.db = w.db) (hheight : v.height = w.height)
    (hcache : ∀ k x, cache' k = some x → cache k = some x ∨
      x = (cache k).getD (K.read ((K.history w.db).value k)) ∧
        (k ∈ (K.history w.db).heights ∨ k = 1 ∧ 1 ≤ w.height)) :
    Recalled K v cache' past where
  upTo := by
    rw [hdb, hheight]
    exact h.upTo
  remembered := by
    rw [hdb, hheight]
    exact h.remembered.read_through h.upTo hcache
  standing := by
    rw [hdb, hheight]
    exact h.standing

end Recalled

/-- The condition on a run: no block has the identifier of another, and a rollback finds every
lease balance that it has to take back. -/
def RangesFollowed (w : LevelDBWriter) : Event → Prop
  | .append _ _ _ block => w.db.heightOf block.uniqueId = none
  | .rollbackTo id => ∀ targetHeight, w.db.heightOf id = some targetHeight →
    w.LeasesFound targetHeight
  | _ => True

/-- Every block is found by its identifier, the last one too, and the chain is as high as a
rollback may not go. -/
structure Found (w : LevelDBWriter) : Prop where
  sound : Sound w
  unrepeated : StoredUpdater.Unrepeated w
  last : ∀ b, w.lastBlock = some b → w.db.heightOf b.uniqueId = some w.height
  safe : w.db.safeRollbackHeight ≤ w.height

namespace Found

omit [Crypto] [PBTransactionSerializer] [BlockSerializer] [Ride] in
theorem heightOf_eq (h : Found w) (id : BlockId) : w.heightOf id = w.db.heightOf id := by
  unfold LevelDBWriter.heightOf
  split
  · rename_i hlast
    obtain ⟨b, hb, hid⟩ := (Option.any_eq_true ..).mp hlast
    rw [← of_decide_eq_true hid]
    exact (h.last b hb).symm
  · rfl

omit [Crypto] [PBTransactionSerializer] [BlockSerializer] [Ride] in
/-- A block read from the keys is found by its identifier. -/
theorem heightOf_loadBlock (h : StoredUpdater.Unrepeated w) {height : ℕ} {b : Block}
    (hb : w.db.loadBlock height = some b) : w.db.heightOf b.uniqueId = some height := by
  obtain ⟨info, hinfo, rfl⟩ := Option.map_eq_some_iff.mp hb
  exact h height info hinfo

theorem leads {e : Event} (h : Found w) (hQ : RangesFollowed w e) (hleads : e.Leads w v) :
    Found v := by
  have hsound := h.sound.leads hleads
  cases e with
  | append d carry reward block =>
    obtain ⟨-, rfl⟩ := hleads
    refine ⟨hsound, h.unrepeated.append d carry reward hQ, fun b hb => ?_, ?_⟩
    · rw [← Option.some.inj hb]
      exact if_pos rfl
    · have hsafe := h.safe
      change max w.db.safeRollbackHeight (w.height + 1 - w.dbSettings.maxRollbackDepth) ≤ w.height + 1
      omega
  | rollbackTo id =>
    obtain ⟨targetHeight, hid, htarget, hdb, hheight⟩ :=
      rollbackTo_target h.sound (h.heightOf_eq id) hleads
    have hunrepeated : StoredUpdater.Unrepeated v := by
      intro k info hinfo
      rw [hdb] at hinfo ⊢
      exact h.unrepeated.discardBlocks _ k info hinfo
    refine ⟨hsound, hunrepeated, fun b hb => ?_, ?_⟩
    · have hlast : v.lastBlock = v.db.loadBlock v.db.height := by
        rw [rollbackTo_eq_ok hleads]
      rw [hlast] at hb
      rw [← hsound.height]
      exact heightOf_loadBlock hunrepeated hb
    · have hsafe := h.safe
      rw [safeRollbackHeight_rollbackTo hleads]
      omega
  | load key =>
    cases hleads
    refine ⟨hsound, ?_, ?_, ?_⟩
    · intro k info hinfo
      rw [db_load] at hinfo ⊢
      exact h.unrepeated k info hinfo
    · rw [db_load, height_load]
      cases key <;> exact h.last
    · rw [db_load, height_load]
      exact h.safe
  | evict key =>
    cases hleads
    refine ⟨hsound, ?_, ?_, ?_⟩
    · intro k info hinfo
      rw [db_evict] at hinfo ⊢
      exact h.unrepeated k info hinfo
    · rw [db_evict, height_evict]
      cases key <;> exact h.last
    · rw [db_evict, height_evict]
      exact h.safe
  | restart =>
    cases hleads
    refine ⟨hsound, h.unrepeated, fun b hb => heightOf_loadBlock h.unrepeated hb, ?_⟩
    change w.db.safeRollbackHeight ≤ w.db.height
    rw [h.sound.height]
    exact h.safe

end Found

/-- Balances that are settled stay so. -/
theorem Settled.leads {e : Event} (hs : Settled w) (hw : Sound w) (hQ : RangesFollowed w e)
    (hleads : e.Leads w v) : Settled v := by
  -- what an event does to the caches
  have hbalance := fun a => (hs.balance a).leads (Q := fun _ _ => True)
    (writesThrough_keptBalance a .Waves) hw trivial hleads
  have hleaseBalance := fun a => (hs.leaseBalance a).leads (Q := fun _ _ => True)
    (writesThrough_keptLeaseBalance a) hw trivial hleads
  cases e with
  | append d carry reward block =>
    obtain ⟨-, rfl⟩ := hleads
    exact hs.append d carry reward block
  | rollbackTo id => exact hs.rollbackTo hw hleads hQ
  | load key =>
    cases hleads
    exact hs.of_db (db_load _ _) (height_load _ _) hbalance hleaseBalance
  | evict key =>
    cases hleads
    exact hs.of_db (db_evict _ _) (height_evict _ _) hbalance hleaseBalance
  | restart =>
    cases hleads
    exact hs.of_db rfl hw.height hbalance hleaseBalance

end

end LevelDBWriter

/-! ## 6. In every run -/

namespace SnapshotWriter

open LevelDBWriter

section

variable [Crypto] [PBTransactionSerializer] [BlockSerializer] [Ride]
variable {settings : BlockchainSettings} {dbSettings : DBSettings} {w w' : SnapshotWriter}
  {past : ℕ → LevelDBWriter}

/-- What a run keeps of the balances and of the memory of heights. -/
structure Recalls (w : SnapshotWriter) (past : ℕ → LevelDBWriter) : Prop where
  found : Found w.writer
  settled : w.writer.Settled
  numbered : ∀ a ∈ w.writer.db.addressId, 1 ≤ w.writer.height
  balance : ∀ a, Recalled (keptBalance a .Waves) w.writer (fun h => w.balanceAtHeightCache h a) past
  leaseBalance : ∀ a,
    Recalled (keptLeaseBalance a) w.writer (fun h => w.leaseBalanceAtHeightCache h a) past

omit [Crypto] [PBTransactionSerializer] [BlockSerializer] [Ride] in
theorem mem_or_eq_one_of_mem_slice {l : List ℕ} {from_ to_ h : ℕ} (hh : h ∈ slice l from_ to_) :
    h ∈ l ∨ h = 1 := by
  have hrest : ∀ x ∈ l.dropWhile (to_ < ·), x ∈ l := fun x hx =>
    (List.dropWhile_sublist _).subset hx
  rw [slice, List.mem_append, List.mem_singleton] at hh
  rcases hh with hh | rfl
  · exact .inl (hrest h (List.mem_filter.mp hh).1)
  · rcases hhead : (List.filter (fun h => decide ¬from_ < h)
      (l.dropWhile (to_ < ·))).head? with _ | x
    · exact .inr rfl
    · exact .inl (hrest x (List.mem_filter.mp (List.mem_of_mem_head? hhead)).1)

omit [BlockSerializer] [Ride] in
/-- What a rollback leaves of a memory of heights lies at its end or below, where the index has
the heights above. -/
theorem Recalls.invalidated {α : Type} (h : Recalls w past) {id : BlockId}
    (hroll : w.writer.rollbackTo id = .ok w'.writer) {cache : ℕ → Address → Option α}
    {heights : List ℕ} {a : Address} (hle : ∀ k ∈ heights, k ≤ w.writer.height)
    (hindexed : ∀ targetHeight, w.writer.db.heightOf id = some targetHeight →
      ∀ k ∈ heights, targetHeight < k → a ∈ w.writer.db.changedAddresses k)
    {k : ℕ} {x : α} (hx : w.invalidated cache id k a = some x) :
    cache k a = some x ∧ (k ∈ heights → k ≤ w'.writer.height) := by
  obtain ⟨targetHeight, hid, -, -, hheight⟩ :=
    rollbackTo_target h.found.sound (h.found.heightOf_eq id) hroll
  unfold SnapshotWriter.invalidated at hx
  rw [hid] at hx
  dsimp only at hx
  split at hx
  · cases hx
  · rename_i hkept
    refine ⟨hx, fun hk => ?_⟩
    by_contra hlt
    have hk' := hle k hk
    exact hkept ⟨⟨by omega, hk'⟩, hindexed targetHeight hid k hk (by omega)⟩

theorem Recalls.leads {e : Event} (h : Recalls w past)
    (hQ : ∀ e', e = .writer e' → RangesFollowed w.writer e') (hleads : e.Leads w w') :
    Recalls w' (recorded past w' e) := by
  cases e with
  | writer e =>
    obtain ⟨hwriter, hcaches⟩ := hleads
    have hQ := hQ e rfl
    have hfound := h.found.leads hQ hwriter
    have hsettled := h.settled.leads h.found.sound hQ hwriter
    -- the memory is as it was, and so are the keys
    have hsame : w'.writer.db = w.writer.db → w'.writer.height = w.writer.height →
        (∀ k a x, w'.balanceAtHeightCache k a = some x → w.balanceAtHeightCache k a = some x) →
        (∀ k a x, w'.leaseBalanceAtHeightCache k a = some x →
          w.leaseBalanceAtHeightCache k a = some x) → Recalls w' past := by
      intro hdb hheight hbalance hleaseBalance
      refine ⟨hfound, hsettled, ?_, fun a => ?_, fun a => ?_⟩
      · rw [hdb, hheight]
        exact h.numbered
      · exact (h.balance a).of_cache hdb hheight fun k x hx => .inl (hbalance k a x hx)
      · exact (h.leaseBalance a).of_cache hdb hheight fun k x hx => .inl (hleaseBalance k a x hx)
    cases e with
    | append d carry reward block =>
      obtain ⟨hbalance, hleaseBalance⟩ := hcaches
      obtain ⟨-, hwriter⟩ := hwriter
      have hpast : recorded past w' (.writer (.append d carry reward block)) =
          Function.update past (w.writer.height + 1) (w.writer.append d carry reward block) := by
        rw [recorded, ← hwriter]
        rfl
      rw [← hwriter] at hfound hsettled
      refine ⟨by rwa [← hwriter], by rwa [← hwriter], fun _ _ => ?_, fun a => ?_, fun a => ?_⟩
      · rw [← hwriter]
        exact Nat.succ_pos _
      · rw [hpast, hbalance, ← hwriter]
        exact (h.balance a).append rfl (hsettled.balance a)
      · rw [hpast, hleaseBalance, ← hwriter]
        exact (h.leaseBalance a).append rfl (hsettled.leaseBalance a)
    | rollbackTo id =>
      obtain ⟨hbalance, hleaseBalance⟩ := hcaches
      have hindex := h.found.heightOf_eq id
      obtain ⟨targetHeight, hid, htarget, hdb, hheight⟩ :=
        rollbackTo_target h.found.sound hindex hwriter
      refine ⟨hfound, hsettled, fun a ha => ?_, fun a => ?_, fun a => ?_⟩
      · rw [hdb, (indexes_discardBlocks targetHeight _ w.writer).2] at ha
        have := h.numbered a ha
        omega
      · rw [hbalance]
        exact (h.balance a).rollbackTo (lawful_keptBalance a .Waves) h.found.sound hindex hwriter
          (hsettled.waves a).upTo (fun k x hx => h.invalidated hwriter (h.settled.waves a).upTo.le
            (fun _ _ k hk _ => (h.settled.waves a).indexed k hk) hx) h.found.safe
      · rw [hleaseBalance]
        exact (h.leaseBalance a).rollbackTo (lawful_keptLeaseBalance a) h.found.sound hindex hwriter
          (hsettled.lease a) (fun k x hx => h.invalidated hwriter (h.settled.lease a).le
            (fun t ht k hk hlt => hQ t ht a k hk hlt) hx) h.found.safe
    | load key =>
      obtain ⟨hbalance, hleaseBalance⟩ := hcaches
      have hwriter : w.writer.load key = w'.writer := hwriter
      refine hsame ?_ ?_ (fun k a x hx => by rwa [hbalance] at hx)
        fun k a x hx => by rwa [hleaseBalance] at hx
      · rw [← hwriter, db_load]
      · rw [← hwriter, height_load]
    | evict key =>
      obtain ⟨hbalance, hleaseBalance⟩ := hcaches
      have hwriter : w.writer.evict key = w'.writer := hwriter
      refine hsame ?_ ?_ (fun k a x hx => by rwa [hbalance] at hx)
        fun k a x hx => by rwa [hleaseBalance] at hx
      · rw [← hwriter, db_evict]
      · rw [← hwriter, height_evict]
    | restart =>
      obtain ⟨hbalance, hleaseBalance⟩ := hcaches
      have hwriter : w.writer.restart = w'.writer := hwriter
      refine hsame ?_ ?_ (fun k a x hx => ?_) fun k a x hx => ?_
      · rw [← hwriter]
        rfl
      · rw [← hwriter]
        exact h.found.sound.height
      · rw [hbalance] at hx
        cases hx
      · rw [hleaseBalance] at hx
        cases hx
  | balanceSnapshots address from_ to_ =>
    cases hleads
    change Recalls (w.queried address from_ to_) past
    unfold queried
    split
    · rename_i hnumbered
      have hpos := h.numbered address hnumbered
      refine ⟨h.found, h.settled, h.numbered, fun a => ?_, fun a => ?_⟩
      · refine (h.balance a).of_cache rfl rfl fun k x hx => ?_
        dsimp only at hx
        split at hx
        · rename_i hasked
          obtain ⟨rfl, hk⟩ := hasked
          obtain ⟨p, hp, rfl⟩ := List.mem_map.mp hk
          refine .inr ⟨(Option.some.inj hx).symm, ?_⟩
          exact (mem_or_eq_one_of_mem_slice (mem_merge hp).1).imp_right fun h1 => ⟨h1, hpos⟩
        · exact .inl hx
      · refine (h.leaseBalance a).of_cache rfl rfl fun k x hx => ?_
        dsimp only at hx
        split at hx
        · rename_i hasked
          obtain ⟨rfl, hk⟩ := hasked
          obtain ⟨p, hp, rfl⟩ := List.mem_map.mp hk
          refine .inr ⟨(Option.some.inj hx).symm, ?_⟩
          exact (mem_or_eq_one_of_mem_slice (mem_merge hp).2).imp_right fun h1 => ⟨h1, hpos⟩
        · exact .inl hx
    · exact h
  | evictBalance height address =>
    cases hleads
    refine ⟨h.found, h.settled, h.numbered, fun a => ?_, h.leaseBalance⟩
    refine (h.balance a).of_cache rfl rfl fun k x hx => ?_
    dsimp only at hx
    split at hx
    · cases hx
    · exact .inl hx
  | evictLeaseBalance height address =>
    cases hleads
    refine ⟨h.found, h.settled, h.numbered, h.balance, fun a => ?_⟩
    refine (h.leaseBalance a).of_cache rfl rfl fun k x hx => ?_
    dsimp only at hx
    split at hx
    · cases hx
    · exact .inl hx

theorem recalls_recorded (h : Recorded RangesFollowed settings dbSettings w past) :
    Recalls w past := by
  induction h with
  | empty =>
    have hrecalled : ∀ {υ β : Type} (K : Kept υ β), K.history Keys.empty = .empty →
        Recalled K (.empty settings dbSettings) (fun _ => none)
          fun _ => .empty settings dbSettings := by
      intro υ β K hempty
      have hhistory : K.history (LevelDBWriter.empty settings dbSettings).db = .empty := hempty
      refine ⟨?_, fun k x hx => ?_, fun k hpos hk _ => ?_⟩
      · rw [hhistory]
        exact History.upTo_empty _
      · cases hx
      · have hk : k ≤ 0 := hk
        omega
    refine ⟨⟨⟨rfl, ?_⟩, ?_, ?_, Nat.le_refl _⟩, ⟨fun a => History.tracked_empty 0,
      fun a => History.upTo_empty 0, ?_, ?_, fun a _ => ⟨rfl, rfl⟩⟩, ?_,
      fun a => hrecalled (keptBalance a .Waves) rfl, fun a => hrecalled (keptLeaseBalance a) rfl⟩
    · intro id h hid
      cases hid
    · intro h info hinfo
      cases hinfo
    · intro b hb
      cases hb
    · exact fun a => Kept.cached_reachable (Q := fun _ _ => True)
        (writesThrough_keptBalance a .Waves) .empty
    · exact fun a => Kept.cached_reachable (Q := fun _ _ => True)
        (writesThrough_keptLeaseBalance a) .empty
    · intro a ha
      exact absurd ha (Finset.notMem_empty a)
  | step _ hQ hleads ih => exact ih.leads hQ hleads

omit [Crypto] [PBTransactionSerializer] [BlockSerializer] [Ride] in
/-- The balances of an account as a block left them. -/
def standing (past : ℕ → LevelDBWriter) (a : Address) (h : ℕ) : BalanceSnapshot :=
  let lb := (past h).leaseBalance a
  ⟨h, (past h).balance a .Waves, lb.in_, lb.out⟩

variable {a : Address} {id : BlockId} {from_ to_ : ℕ}

omit [Crypto] [PBTransactionSerializer] [BlockSerializer] [Ride] in
/-- What is read for a height of the range is what that height left. -/
theorem Recalls.balanceAt_covering (h : Recalls w past) {k : ℕ} (hpos : 1 ≤ k)
    (hkept : w.writer.db.safeRollbackHeight ≤ k + 1000) :
    w.balanceAt a (covering (w.writer.db.wavesBalance a).heights k) =
        ((w.writer.db.wavesBalance a).asOf k).getD 0 ∧
      w.leaseBalanceAt a (covering (w.writer.db.leaseBalance a).heights k) =
        ((w.writer.db.leaseBalance a).asOf k).getD LeaseBalance.empty := by
  have hforgotten : w.writer.db.safeRollbackHeight - 1000 ≤ k := by omega
  have hbalance := h.balance a
  have hlease := h.leaseBalance a
  have hupTo : (w.writer.db.wavesBalance a).UpTo w.writer.height := hbalance.upTo
  have hupTo' : (w.writer.db.leaseBalance a).UpTo w.writer.height := hlease.upTo
  constructor
  · rw [← History.value_covering hupTo hpos]
    exact hbalance.remembered.getD_covering hupTo hforgotten (Nat.le_refl k)
  · rw [← History.value_covering hupTo' hpos]
    exact hlease.remembered.getD_covering hupTo' hforgotten (Nat.le_refl k)

omit [Crypto] [PBTransactionSerializer] [BlockSerializer] [Ride] in
/-- An address without a number is answered as one without changes. -/
theorem Recalls.balanceSnapshots_eq (h : Recalls w past) (hpos : 1 ≤ from_)
    (hkept : w.writer.db.safeRollbackHeight ≤ from_ + 1000) :
    w.balanceSnapshots a from_ id = (w.heightsAsked a from_ id).map fun p =>
      ⟨max p.1 p.2, w.balanceAt a p.1, (w.leaseBalanceAt a p.2).in_, (w.leaseBalanceAt a p.2).out⟩ := by
  unfold balanceSnapshots
  split
  · rfl
  · rename_i hunnumbered
    obtain ⟨hwaves, hlease⟩ := h.settled.unnumbered a hunnumbered
    obtain ⟨hbalance, hleaseBalance⟩ := h.balanceAt_covering (a := a) hpos hkept
    have hasOf : ((w.writer.db.wavesBalance a).asOf from_) = none ∧
        ((w.writer.db.leaseBalance a).asOf from_) = none := by
      rw [History.asOf, History.asOf, hwaves, hlease]
      exact ⟨rfl, rfl⟩
    rw [hasOf.1, hwaves] at hbalance
    rw [hasOf.2, hlease] at hleaseBalance
    have hfirst : covering [] from_ = 1 := rfl
    rw [hfirst] at hbalance hleaseBalance
    unfold heightsAsked
    rw [hwaves, hlease]
    change [_] = [(⟨max 1 1, w.balanceAt a 1, (w.leaseBalanceAt a 1).in_,
      (w.leaseBalanceAt a 1).out⟩ : BalanceSnapshot)]
    rw [hbalance, hleaseBalance]
    rfl

omit [Crypto] [PBTransactionSerializer] [BlockSerializer] [Ride] in
/-- **The snapshots of a range** have the values that its heights left, and no others. -/
theorem Recalls.mem_balanceSnapshots (h : Recalls w past) (hid : w.writer.heightOf id = some to_)
    (hpos : 1 ≤ from_) (hle : from_ ≤ to_) (hto : to_ ≤ w.writer.height)
    (hkept : w.writer.db.safeRollbackHeight ≤ from_ + 1000) (f : BalanceSnapshot → Long)
    (hf : ∀ s height, f { s with height := height } = f s) (x : Long) :
    x ∈ (w.balanceSnapshots a from_ id).map f ↔
      x ∈ (rangeInclusive from_ to_).map fun k => f (standing past a k) := by
  have hbalance := h.balance a
  have hlease := h.leaseBalance a
  -- what is read for a height, and what its block left
  have hread : ∀ k, from_ ≤ k → k ≤ to_ →
      ∀ n, f ⟨n, w.balanceAt a (covering (w.writer.db.wavesBalance a).heights k),
        (w.leaseBalanceAt a (covering (w.writer.db.leaseBalance a).heights k)).in_,
        (w.leaseBalanceAt a (covering (w.writer.db.leaseBalance a).heights k)).out⟩ =
          f (standing past a k) := by
    intro k hk hk' n
    obtain ⟨hb, hl⟩ := h.balanceAt_covering (a := a) (k := k) (by omega) (by omega)
    have hb' : ((w.writer.db.wavesBalance a).asOf k).getD 0 = (past k).balance a .Waves :=
      hbalance.standing k (by omega) (by omega) (by omega)
    have hl' : ((w.writer.db.leaseBalance a).asOf k).getD LeaseBalance.empty =
        (past k).leaseBalance a := hlease.standing k (by omega) (by omega) (by omega)
    rw [hb, hb', hl, hl']
    exact (hf (standing past a k) n)
  have hsorted := hbalance.upTo.sorted
  have hsorted' := hlease.upTo.sorted
  have hmerge := fun p => mem_merge_iff (p := p) _ (Nat.le_refl _)
    (spans_slice hsorted hle hpos) (spans_slice hsorted' hle hpos) hle
    (fun x hx => History.mem_slice hsorted hle hpos hx)
    (fun x hx => History.mem_slice hsorted' hle hpos hx)
  rw [h.balanceSnapshots_eq hpos hkept, List.map_map, List.mem_map, List.mem_map]
  have hasked : w.heightsAsked a from_ id =
      merge (slice (w.writer.db.wavesBalance a).heights from_ to_)
        (slice (w.writer.db.leaseBalance a).heights from_ to_) := by
    unfold heightsAsked
    rw [hid]
    rfl
  have hrange : ∀ k, k ∈ rangeInclusive from_ to_ ↔ from_ ≤ k ∧ k ≤ to_ := by
    intro k
    rw [rangeInclusive, List.mem_range'_1]
    omega
  rw [hasked]
  constructor
  · rintro ⟨p, hp, rfl⟩
    obtain ⟨k, hk, hk', hfirst, hsecond⟩ := (hmerge p).mp hp
    refine ⟨k, (hrange k).mpr ⟨hk, hk'⟩, ?_⟩
    rw [covering_slice hsorted hk hk'] at hfirst
    rw [covering_slice hsorted' hk hk'] at hsecond
    rw [Function.comp_apply, ← hfirst, ← hsecond]
    exact (hread k hk hk' _).symm
  · rintro ⟨k, hk, rfl⟩
    obtain ⟨hk, hk'⟩ := (hrange k).mp hk
    refine ⟨_, (hmerge (_, _)).mpr ⟨k, hk, hk', covering_slice hsorted hk hk',
      covering_slice hsorted' hk hk'⟩, ?_⟩
    exact hread k hk hk' _

/-- **The least of a range is exact**: over the snapshots it is what it is over the balances
that the blocks of the range left, in every run and for every range that begins where nothing
was forgotten. -/
theorem least_of_range (h : Recorded RangesFollowed settings dbSettings w past)
    (hid : w.writer.heightOf id = some to_) (hpos : 1 ≤ from_) (hle : from_ ≤ to_)
    (hto : to_ ≤ w.writer.height) (hkept : w.writer.db.safeRollbackHeight ≤ from_ + 1000) :
    ((w.balanceSnapshots a from_ id).map BalanceSnapshot.effectiveBalance).min? =
        ((rangeInclusive from_ to_).map fun k => (standing past a k).effectiveBalance).min? ∧
      ((w.balanceSnapshots a from_ id).map BalanceSnapshot.regularBalance).min? =
        ((rangeInclusive from_ to_).map fun k => (standing past a k).regularBalance).min? := by
  have hrecalls := recalls_recorded h
  exact ⟨min?_congr (hrecalls.mem_balanceSnapshots hid hpos hle hto hkept _ fun _ _ => rfl),
    min?_congr (hrecalls.mem_balanceSnapshots hid hpos hle hto hkept _ fun _ _ => rfl)⟩

end

end SnapshotWriter

/-! ## 7. What is forgotten

A chain of empty blocks whose miner is rewarded for every block: each writes a balance, and a
thousand heights below the last one the history ends. -/

namespace Devnet

def rewardedSettings : BlockchainSettings :=
  { settings [(BlockchainFeatures.BlockReward, 0)] with
    functionalitySettings :=
      { functionalitySettings [(BlockchainFeatures.BlockReward, 0)] with
        featureCheckBlocksPeriod := 10000
        featureCheckBlocksPeriod_pos := tenThousand_pos
        blocksForFeatureActivation_le := one_le_tenThousand } }

/-- No block may be rolled back. -/
def rewardedDbSettings : DBSettings := { dbSettings with maxRollbackDepth := 0 }

def blockReward : Long := 600000000

/-- The empty block of a height, on the one before it. -/
def rewardedBlock (height : ℕ) : Block where
  header :=
    { emptyBlock.header with
      timestamp := 1500000000000
      reference := bytes 64 (height - 1) }
  signature := bytes 64 height
  transactionData := []

end Devnet

section
open Devnet LevelDBWriter SnapshotWriter

/-- Every block of the chain is signed. -/
local instance rangesCrypto : Crypto := { firstBlocks.crypto with verify := fun _ _ _ => true }
local instance rangesSerializer : PBTransactionSerializer := pbTransactionSerializer
local instance rangesBlocks : BlockSerializer := firstBlocks.blockSerializer
local instance rangesRide : Ride := firstBlocks.ride

namespace Devnet

/-- What an empty block changes: the reward of the block below it goes to its miner. -/
def rewardedDiff (reward : Option Long) : Diff :=
  { Diff.empty with
    portfolios := .single miner.publicKey.toAddress
      ((((reward.map (Portfolio.build .Waves)).getD Portfolio.empty).combine
        (.combineAll [])).combine Portfolio.empty) }

/-- At a height of no patch nothing is patched. -/
theorem applyPatches_eq {b : Blockchain} {r : BlockDiffer.Result}
    (hreset : b.height ≠ b.settings.functionalitySettings.resetEffectiveBalancesAtHeight)
    (hversion : b.height ≠ b.settings.functionalitySettings.blockVersion3AfterHeight)
    (hdata : b.featureActivationHeight BlockchainFeatures.DataTransaction ≠ some b.height) :
    BlockDiffer.applyPatches b r = .ok r := by
  have hdata' : ∀ d : Diff, (CompositeBlockchain b (some d)).featureActivationHeight
      BlockchainFeatures.DataTransaction ≠ some b.height := fun _ => hdata
  unfold BlockDiffer.applyPatches BlockDiffer.patches
  simp only [List.foldlM, hreset, hversion, hdata', decide_false, Bool.false_eq_true, if_false]
  rfl

theorem fromBlock_rewarded {w : LevelDBWriter} (hsettings : w.settings = rewardedSettings)
    (hfeatures : w.activatedFeatures =
      rewardedSettings.functionalitySettings.preActivatedFeatures)
    (hheight : w.height < 10000) (height : ℕ) :
    ∃ r, BlockDiffer.fromBlock w.blockchain w.lastBlock (rewardedBlock height) .Unlimited = .ok r ∧
      r.diff = rewardedDiff (w.db.blockReward w.height) ∧ r.carry = 0 := by
  have hNG : BlockDiffer.ngHeight w.blockchain = Int.MaxValue := by
    change ((w.activatedFeatures.get? BlockchainFeatures.NG.id).getD Int.MaxValue) = _
    rw [hfeatures]
    decide +kernel
  have hsponsored : w.blockchain.sponsoredFeesSwitchHeight = Int.MaxValue := by
    have hnone : w.activatedFeatures.get? BlockchainFeatures.FeeSponsorship.id = none := by
      rw [hfeatures]
      decide +kernel
    change ((w.activatedFeatures.get? BlockchainFeatures.FeeSponsorship.id).map _).getD _ = _
    rw [hnone]
    rfl
  have hlow : w.height < Int.MaxValue := Nat.lt_trans hheight (by decide)
  have hportfolio : BlockDiffer.minerPortfolio w.blockchain w.lastBlock (rewardedBlock height) =
      ((((w.db.blockReward w.height).map (Portfolio.build .Waves)).getD Portfolio.empty).combine
        (.combineAll [])).combine Portfolio.empty := by
    have hfees : (rewardedBlock height).feesPortfolio = .combineAll [] := rfl
    have hreward : w.blockchain.lastBlockReward = w.db.blockReward w.height := rfl
    unfold BlockDiffer.minerPortfolio
    dsimp only
    rw [hfees, hreward, hNG, hsponsored, if_pos (show w.blockchain.height < Int.MaxValue from hlow),
      if_neg (show ¬ w.blockchain.height ≥ Int.MaxValue from Nat.not_le.mpr hlow),
      if_neg (show ¬ w.blockchain.height > Int.MaxValue from Nat.not_lt.mpr (Nat.le_of_lt hlow))]
  have hdata : w.activatedFeatures.get? BlockchainFeatures.DataTransaction.id = none := by
    rw [hfeatures]
    decide +kernel
  have hsigned : (rewardedBlock height).signaturesValid = .ok () := rfl
  unfold BlockDiffer.fromBlock
  rw [if_pos rfl, hsigned, hportfolio]
  refine ⟨_, applyPatches_eq ?_ ?_ ?_, rfl, rfl⟩
  · change w.height + 1 ≠ w.settings.functionalitySettings.resetEffectiveBalancesAtHeight
    rw [hsettings]
    exact Nat.succ_ne_zero _
  · change w.height + 1 ≠ w.settings.functionalitySettings.blockVersion3AfterHeight
    rw [hsettings]
    exact Nat.succ_ne_zero _
  · change w.activatedFeatures.get? BlockchainFeatures.DataTransaction.id ≠ some (w.height + 1)
    rw [hdata]
    exact nofun

/-- The database after so many rewarded blocks. -/
structure Rewarded (n : ℕ) (w : LevelDBWriter) : Prop where
  settings : w.settings = rewardedSettings
  dbSettings : w.dbSettings = rewardedDbSettings
  features : w.activatedFeatures = rewardedSettings.functionalitySettings.preActivatedFeatures
  height : w.height = n
  reward : w.db.blockReward n = if n = 0 then none else some blockReward
  heightOf : ∀ k < 10000, w.db.heightOf (bytes 64 k) = if 1 ≤ k ∧ k ≤ n then some k else none
  heights : ∀ h, h ∈ (w.db.wavesBalance miner.publicKey.toAddress).heights ↔
    2 ≤ h ∧ h ≤ n ∧ n ≤ h + 1000

theorem heightOf_append (w : LevelDBWriter) (d : Diff) (carry : Long) (reward : Option Long)
    (block : Block) (id : BlockId) :
    (w.append d carry reward block).db.heightOf id =
      if id = block.uniqueId then some (w.height + 1) else w.db.heightOf id := rfl

theorem bytes_inj {k k' : ℕ} (hk : k < 10000) (hk' : k' < 10000) (h : bytes 64 k = bytes 64 k') :
    k = k' := by
  have hread := congrArg BigEndian.read h
  rw [bytes, bytes, BigEndian.read_write, BigEndian.read_write] at hread
  have hbig : 10000 < 256 ^ 64 := by decide
  rwa [Nat.mod_eq_of_lt (Nat.lt_trans hk hbig), Nat.mod_eq_of_lt (Nat.lt_trans hk' hbig)] at hread

/-- The reward of the block below is what a block adds to the balance of its miner. -/
theorem updatedBalance_rewarded (w : LevelDBWriter) (reward : Option Long) :
    w.updatedBalance (rewardedDiff (reward.map fun _ => blockReward)) miner.publicKey.toAddress
        .Waves =
      reward.map fun _ => w.balance miner.publicKey.toAddress .Waves + blockReward := by
  unfold LevelDBWriter.updatedBalance rewardedDiff
  dsimp only
  rw [FiniteMap.get?_single_self, Option.bind_some]
  cases reward with
  | none => exact if_neg (by decide)
  | some r =>
    rw [Option.map_some, Option.map_some]
    exact if_pos (by decide)

theorem Rewarded.append {n : ℕ} {w : LevelDBWriter} (h : Rewarded n w)
    (hs : (w.db.wavesBalance miner.publicKey.toAddress).UpTo n) (hn : n < 2000) :
    Rewarded (n + 1) (w.append (rewardedDiff (w.db.blockReward w.height)) 0 (some blockReward)
      (rewardedBlock (n + 1))) := by
  have hheight := h.height
  have happroved : w.newlyApprovedFeatures (rewardedBlock (n + 1)) = ∅ := by
    have hwindow : w.settings.functionalitySettings.activationWindowSize (w.height + 1) = 10000 := by
      rw [h.settings, hheight]
      change 10000 * (if n + 1 ≤ 1000000 then 1 else 2) = 10000
      rw [if_pos (by omega)]
    unfold LevelDBWriter.newlyApprovedFeatures
    dsimp only
    rw [hwindow, if_neg (by omega)]
  refine ⟨h.settings, h.dbSettings, ?_, ?_, ?_, ?_, ?_⟩
  · unfold LevelDBWriter.append
    dsimp only
    rw [happroved]
    exact h.features
  · rw [← hheight]
    rfl
  · change (if n + 1 = w.height + 1 then (some blockReward).or _ else _) = _
    rw [hheight, if_pos rfl, if_neg (Nat.succ_ne_zero n)]
    rfl
  · intro k hk
    have hid : (rewardedBlock (n + 1)).uniqueId = bytes 64 (n + 1) := rfl
    rw [heightOf_append, hid, h.heightOf k hk, hheight]
    by_cases hkn : k = n + 1
    · rw [hkn, if_pos rfl, if_pos ⟨by omega, Nat.le_refl _⟩]
    · rw [if_neg fun hsame => hkn (bytes_inj hk (by omega) hsame)]
      exact if_congr (by omega) rfl rfl
  · intro k
    change k ∈ ((w.db.wavesBalance _).pushSome (w.height + 1)
      (w.height + 1 - (w.dbSettings.maxRollbackDepth + 1000))
      (w.updatedBalance (rewardedDiff (w.db.blockReward w.height)) _ .Waves)).heights ↔ _
    have hdepth : w.dbSettings.maxRollbackDepth + 1000 = 1000 := by
      rw [h.dbSettings]
      rfl
    rw [hdepth, hheight, h.reward]
    by_cases hzero : n = 0
    · have hnone := updatedBalance_rewarded w none
      rw [Option.map_none, Option.map_none] at hnone
      rw [if_pos hzero, hnone, History.pushSome, h.heights]
      omega
    · have hsome := updatedBalance_rewarded w (some 0)
      rw [Option.map_some, Option.map_some] at hsome
      rw [if_neg hzero, hsome, History.pushSome,
        History.mem_heights_push_iff hs (by omega) (Nat.le_refl 2) h.heights (by omega)]

/-- The second block is the first whose miner is paid, for the first. -/
theorem balance_secondReward {w : LevelDBWriter} (hsettled : w.Settled)
    (h : Rewarded 1 w) (n : ℕ) :
    (w.append (rewardedDiff (w.db.blockReward w.height)) 0 (some blockReward)
      (rewardedBlock (n + 1))).balance miner.publicKey.toAddress .Waves = blockReward := by
  have hnothing : (w.db.wavesBalance miner.publicKey.toAddress).heights = [] :=
    List.eq_nil_iff_forall_not_mem.mpr fun k hk => by
      have := (h.heights k).mp hk
      omega
  have hbalance : w.balance miner.publicKey.toAddress .Waves = 0 := by
    rw [hsettled.balance_eq, History.latest, hnothing]
    rfl
  have hsome := updatedBalance_rewarded w (some 0)
  rw [Option.map_some, Option.map_some, hbalance] at hsome
  have hreward : w.db.blockReward w.height = some blockReward := by
    rw [h.height, h.reward, if_neg Nat.one_ne_zero]
  unfold LevelDBWriter.balance
  change ((w.updatedBalance (rewardedDiff (w.db.blockReward w.height)) _ .Waves).or _).getD _ = _
  rw [hreward, hsome]
  rfl

/-- The run of so many rewarded blocks, with nothing in the caches of heights. -/
theorem exists_rewarded : ∀ n ≤ 2000, ∃ w past,
    Recorded RangesFollowed rewardedSettings rewardedDbSettings w past ∧ Rewarded n w.writer ∧
      (∀ h a, w.balanceAtHeightCache h a = none) ∧
      (2 ≤ n → (past 2).balance miner.publicKey.toAddress .Waves = blockReward) := by
  intro n
  induction n with
  | zero =>
    intro _
    refine ⟨_, _, .empty, ⟨rfl, rfl, rfl, rfl, rfl, fun k _ => ?_, fun h => ?_⟩, fun _ _ => rfl, ?_⟩
    · rw [if_neg (by omega)]
      rfl
    · constructor
      · intro hh
        cases hh
      · omega
    · omega
  | succ n ih =>
    intro hn
    obtain ⟨w, past, hrun, hw, hcache, hpast⟩ := ih (by omega)
    have hrecalls := recalls_recorded hrun
    have hs := (hrecalls.settled.waves miner.publicKey.toAddress).upTo
    rw [hw.height] at hs
    obtain ⟨r, hr, hdiff, hcarry⟩ := fromBlock_rewarded hw.settings hw.features
      (by rw [hw.height]; omega) (n + 1)
    have hblock := produces_fromBlock hr
    rw [hdiff, hcarry] at hblock
    have hfresh : w.writer.db.heightOf (bytes 64 (n + 1)) = none := by
      rw [hw.heightOf (n + 1) (by omega), if_neg (by omega)]
    have hstep : Recorded RangesFollowed rewardedSettings rewardedDbSettings
        { w with
          writer := w.writer.append (rewardedDiff (w.writer.db.blockReward w.writer.height)) 0
            (some blockReward) (rewardedBlock (n + 1)) } _ :=
      .step (e := .writer (.append _ _ _ _)) hrun (fun e' he' => by
        cases he'
        exact hfresh) ⟨⟨hblock, rfl⟩, rfl, rfl⟩
    refine ⟨_, _, hstep, hw.append hs (by omega), hcache, fun h2 => ?_⟩
    rw [recorded]
    by_cases hsecond : n = 1
    · -- the second block is the first with a reward below it
      have hheight : w.writer.height + 1 = 2 := by
        rw [hw.height, hsecond]
      refine (congrArg (fun v => LevelDBWriter.balance v _ _) ?_).trans
        (balance_secondReward hrecalls.settled (hsecond ▸ hw) n)
      rw [← hheight]
      exact Function.update_self _ _ _
    · have hne : (2 : ℕ) ≠ w.writer.height + 1 := by
        rw [hw.height]
        omega
      refine (congrArg (fun v => LevelDBWriter.balance v _ _) (Function.update_of_ne hne _ _)).trans ?_
      exact hpast (by omega)

end Devnet

namespace SnapshotWriter

/-- Within reach the answer is exact: of the second and the third block, the second left less. -/
theorem least_of_range_rewarded :
    ∃ w past, Recorded RangesFollowed rewardedSettings rewardedDbSettings w past ∧
      Rewarded 3 w.writer ∧
      ((w.balanceSnapshots miner.publicKey.toAddress 2 (bytes 64 3)).map
          BalanceSnapshot.effectiveBalance).min? =
        ((rangeInclusive 2 3).map fun k =>
          (standing past miner.publicKey.toAddress k).effectiveBalance).min? ∧
      ((w.balanceSnapshots miner.publicKey.toAddress 2 (bytes 64 3)).map
          BalanceSnapshot.regularBalance).min? =
        ((rangeInclusive 2 3).map fun k =>
          (standing past miner.publicKey.toAddress k).regularBalance).min? := by
  obtain ⟨w, past, hrun, hw, -, -⟩ := exists_rewarded 3 (by decide)
  have hrecalls := recalls_recorded hrun
  have hid : w.writer.heightOf (bytes 64 3) = some 3 := by
    rw [hrecalls.found.heightOf_eq, hw.heightOf 3 (by decide)]
    rfl
  have hsafe := hrecalls.found.safe
  have hheight := hw.height
  exact ⟨w, past, hrun, hw, least_of_range hrun hid (by decide) (by decide) (by omega) (by omega)⟩

/-- A thousand blocks later nothing is left of what the second block was paid. -/
theorem range_forgotten :
    ¬∀ (settings : BlockchainSettings) (dbSettings : DBSettings) (w : SnapshotWriter)
      (past : ℕ → LevelDBWriter) (a : Address) (id : BlockId) (from_ to_ : ℕ),
      Recorded RangesFollowed settings dbSettings w past → w.writer.heightOf id = some to_ →
      1 ≤ from_ → from_ ≤ to_ → to_ ≤ w.writer.height →
      ((w.balanceSnapshots a from_ id).map BalanceSnapshot.effectiveBalance).min? =
          ((rangeInclusive from_ to_).map fun k => (standing past a k).effectiveBalance).min? ∧
        ((w.balanceSnapshots a from_ id).map BalanceSnapshot.regularBalance).min? =
          ((rangeInclusive from_ to_).map fun k => (standing past a k).regularBalance).min? := by
  intro hall
  obtain ⟨w, past, hrun, hw, hcache, hpast⟩ := exists_rewarded 1003 (by decide)
  have hrecalls := recalls_recorded hrun
  have hid : w.writer.heightOf (bytes 64 2) = some 2 := by
    rw [hrecalls.found.heightOf_eq, hw.heightOf 2 (by decide)]
    rfl
  have hheight := hw.height
  obtain ⟨-, hregular⟩ := hall _ _ w past miner.publicKey.toAddress (bytes 64 2) 2 2 hrun hid
    (by decide) (by decide) (by omega)
  have hs := (hrecalls.settled.waves miner.publicKey.toAddress).upTo
  -- the history has no height at or below the second
  have hnone : ∀ k ≤ 2, k ∉ (w.writer.db.wavesBalance miner.publicKey.toAddress).heights := by
    intro k hk hmem
    have := (hw.heights k).mp hmem
    omega
  have hzero : w.balanceAt miner.publicKey.toAddress 1 = 0 := by
    have hvalue : (w.writer.db.wavesBalance miner.publicKey.toAddress).value 1 = none := by
      rw [← Option.not_isSome_iff_eq_none]
      exact fun hsome => hnone 1 (by decide) (hs.written 1 hsome)
    rw [balanceAt, hcache, hvalue]
    rfl
  have hslice : slice (w.writer.db.wavesBalance miner.publicKey.toAddress).heights 2 2 = [1] := by
    rw [History.slice_of_sorted hs.sorted (Nat.le_refl 2)]
    have hfind : (w.writer.db.wavesBalance miner.publicKey.toAddress).heights.find? (· ≤ 2) =
        none := by
      rw [List.find?_eq_none]
      intro k hk hle
      exact hnone k (of_decide_eq_true hle) hk
    have hfilter : (w.writer.db.wavesBalance miner.publicKey.toAddress).heights.filter
        (fun h => 2 < h ∧ h ≤ 2) = [] := by
      rw [List.filter_eq_nil_iff]
      intro k _ hk
      have := of_decide_eq_true hk
      omega
    rw [hfind, hfilter]
    rfl
  have hleft : ∀ x ∈ (w.balanceSnapshots miner.publicKey.toAddress 2 (bytes 64 2)).map
      BalanceSnapshot.regularBalance, x = 0 := by
    intro x hx
    obtain ⟨snapshot, hsnapshot, rfl⟩ := List.mem_map.mp hx
    unfold balanceSnapshots at hsnapshot
    split at hsnapshot
    · obtain ⟨p, hp, rfl⟩ := List.mem_map.mp hsnapshot
      have hasked : w.heightsAsked miner.publicKey.toAddress 2 (bytes 64 2) =
          merge [1] (slice (w.writer.db.leaseBalance miner.publicKey.toAddress).heights 2 2) := by
        unfold heightsAsked
        rw [hid, ← hslice]
        rfl
      rw [hasked] at hp
      have hp1 := List.mem_singleton.mp (mem_merge hp).1
      dsimp only
      rw [hp1]
      exact hzero
    · rw [List.mem_singleton.mp hsnapshot]
  have hright : ((rangeInclusive 2 2).map fun k =>
      (standing past miner.publicKey.toAddress k).regularBalance).min? = some blockReward :=
    congrArg some (hpast (by decide))
  rw [hright, List.min?_eq_some_iff] at hregular
  have hsame := hleft _ hregular.1
  exact absurd hsame (by decide)

end SnapshotWriter

end

end WavesNode
