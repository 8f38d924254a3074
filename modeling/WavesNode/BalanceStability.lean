/-
The generating balance when a block is persisted.

While a block is liquid its accounts have a snapshot that is added to those of the database;
once it is persisted both histories of an account have a height more, or not, and the
snapshots are put together from them. The two come out alike as long as the histories end at
the height of the database: a lease balance that is left over above it, from a rollback that
did not find it, is what the liquid block builds on, and the database does not look at it.

What a history says of a range of heights is its `window`. Neither a later height nor a
rollback to the end of the range changes it (`window_push`, `window_drop`).
-/
import WavesNode.CacheCoherence
import WavesNode.FeatureVoting
import WavesNode.GeneratingBalance
import WavesNode.LiquidView

set_option autoImplicit false

/-! ## 1. Windows -/

namespace History

section

open WavesNode LevelDBWriter

variable {υ : Type} {s : History υ} {n from_ to_ threshold height : ℕ} {v : Option υ}

theorem slice_of_sorted {l : List ℕ} (hl : l.Pairwise (· > ·)) (hle : from_ ≤ to_) :
    slice l from_ to_ = l.filter (fun h => from_ < h ∧ h ≤ to_) ++
      [(l.find? (· ≤ from_)).getD 1] := by
  induction l with
  | nil => rfl
  | cons h rest ih =>
    rw [List.pairwise_cons] at hl
    by_cases hto : to_ < h
    · -- a height above the range
      have hslice : slice (h :: rest) from_ to_ = slice rest from_ to_ := by
        unfold slice
        rw [List.dropWhile_cons_of_pos (p := fun x => decide (to_ < x)) (decide_eq_true hto)]
      rw [hslice, ih hl.2, List.filter_cons_of_neg, List.find?_cons_of_neg]
      · rw [decide_eq_true_eq]
        omega
      · rw [decide_eq_true_eq]
        omega
    · have hbelow : ∀ x ∈ h :: rest, x ≤ to_ := by
        intro x hx
        rcases List.mem_cons.mp hx with rfl | hx
        · omega
        · have := hl.1 x hx
          omega
      have hnot : ¬ decide (to_ < h) = true := by
        rw [decide_eq_true_eq]
        exact hto
      unfold slice
      rw [List.dropWhile_cons_of_neg (p := fun x => decide (to_ < x)) hnot]
      dsimp only
      rw [List.head?_filter]
      congr 1
      · refine List.filter_congr fun x hx => ?_
        have := hbelow x hx
        simp [this]
      · congr 2
        refine congrArg (fun p => List.find? p (h :: rest)) (funext fun x => ?_)
        simp

/-- What a history says of a range of heights: the heights in it and the one it begins with,
each with what was written there. -/
def window (s : History υ) (from_ to_ : ℕ) : List (ℕ × Option υ) :=
  (slice s.heights from_ to_).map fun h => (h, s.value h)

theorem map_fst_window : (s.window from_ to_).map Prod.fst = slice s.heights from_ to_ := by
  unfold window
  rw [List.map_map]
  exact List.map_id _

/-- Two histories with one value at the first height of a range, and the same heights with
the same values in it, say the same. -/
theorem window_congr {s' : History υ} (hs : s.heights.Pairwise (· > ·))
    (hs' : s'.heights.Pairwise (· > ·)) (hle : from_ ≤ to_)
    (hheights : s'.heights.filter (fun h => from_ < h ∧ h ≤ to_) =
      s.heights.filter (fun h => from_ < h ∧ h ≤ to_))
    (hvalue : ∀ h ∈ s.heights, from_ < h → h ≤ to_ → s'.value h = s.value h)
    (hfirst : s'.heights.find? (· ≤ from_) = s.heights.find? (· ≤ from_))
    (hfirstValue : s'.value ((s.heights.find? (· ≤ from_)).getD 1) =
      s.value ((s.heights.find? (· ≤ from_)).getD 1)) :
    s'.window from_ to_ = s.window from_ to_ := by
  unfold window
  rw [slice_of_sorted hs hle, slice_of_sorted hs' hle, hheights, hfirst, List.map_append,
    List.map_append]
  congr 1
  · refine List.map_congr_left fun h hh => ?_
    obtain ⟨hmem, hin⟩ := List.mem_filter.mp hh
    rw [decide_eq_true_eq] at hin
    rw [hvalue h hmem hin.1 hin.2]
  · rw [List.map_singleton, List.map_singleton, hfirstValue]

/-- **A later height** does not change what is said of a range. -/
theorem window_push (hs : s.UpTo n) (hn : n < height) (hle : from_ ≤ to_) (hto : to_ < height)
    (ht : threshold ≤ from_) (hpos : 1 ≤ from_) :
    (s.push height threshold v).window from_ to_ = s.window from_ to_ := by
  have hkept : ∀ h, h ∉ s.heights ∨ threshold < h → h ≠ height →
      (s.push height threshold v).value h = s.value h := by
    intro h hh hne
    have hnot : h ∉ (s.heights.filter (· ≤ threshold)).drop 1 := by
      intro hdrop
      obtain ⟨hmem, hle⟩ := List.mem_filter.mp (List.mem_of_mem_drop hdrop)
      rw [decide_eq_true_eq] at hle
      rcases hh with hh | hh
      · exact hh hmem
      · omega
    rw [push]
    dsimp only
    rw [if_neg hnot, if_neg hne]
  refine window_congr hs.sorted (hs.push hn).sorted hle ?_ ?_ (find?_push hs (by omega) ht) ?_
  · rw [push, List.cons_append, List.filter_cons_of_neg (by rw [decide_eq_true_eq]; omega),
      List.filter_append, List.filter_filter]
    have hhead : (((s.heights.filter (· ≤ threshold)).head?).toList).filter
        (fun h => from_ < h ∧ h ≤ to_) = [] := by
      rw [List.filter_eq_nil_iff]
      intro x hx
      have hx' := (List.mem_filter.mp (List.mem_of_mem_head? (Option.mem_toList.mp hx))).2
      rw [decide_eq_true_eq] at hx' ⊢
      omega
    rw [hhead, List.append_nil]
    refine List.filter_congr fun x _ => ?_
    rw [Bool.eq_iff_iff, Bool.and_eq_true, decide_eq_true_eq, decide_eq_true_eq]
    omega
  · intro h _ hfrom hto'
    exact hkept h (.inr (by omega)) (by omega)
  · have hasOf := asOf_push (v := v) hs hn (show from_ < height by omega) ht
    rw [asOf, asOf, find?_push hs (by omega) ht] at hasOf
    rcases hfind : s.heights.find? (· ≤ from_) with _ | x
    · -- nothing was written up to there
      rw [Option.getD_none]
      refine hkept 1 (.inl fun hmem => ?_) (by omega)
      have hnot := List.find?_eq_none.mp hfind 1 hmem
      rw [decide_eq_true_eq] at hnot
      exact hnot hpos
    · rw [hfind] at hasOf
      exact hasOf

/-- **A later height that is taken out** does not either. -/
theorem window_drop (hs : s.UpTo n) (hle : from_ ≤ to_) (hto : to_ < height)
    (hpos : 1 ≤ from_) : (s.drop height).window from_ to_ = s.window from_ to_ := by
  have hkept : ∀ h, h ≤ to_ → (s.drop height).value h = s.value h := by
    intro h hh
    rw [drop]
    dsimp only
    rw [if_neg (by omega)]
  have hfind : (s.drop height).heights.find? (· ≤ from_) = s.heights.find? (· ≤ from_) := by
    rw [drop, List.find?_filter]
    refine congrArg (fun p => List.find? p s.heights) (funext fun x => ?_)
    rw [Bool.eq_iff_iff, decide_eq_true_eq, decide_eq_true_eq, decide_eq_true_eq]
    omega
  refine window_congr hs.sorted (hs.drop).sorted hle ?_ (fun h _ _ hh => hkept h hh) hfind ?_
  · rw [drop, List.filter_filter]
    refine List.filter_congr fun x _ => ?_
    rw [Bool.eq_iff_iff, Bool.and_eq_true, decide_eq_true_eq, decide_eq_true_eq]
    omega
  · refine hkept _ ?_
    rcases hx : s.heights.find? (· ≤ from_) with _ | x
    · exact Nat.le_trans hpos hle
    · have hle' := List.find?_some hx
      rw [decide_eq_true_eq] at hle'
      exact Nat.le_trans hle' hle

/-- Histories that say the same of a range have the same values in it. -/
theorem of_window_eq {s' : History υ} (h : s'.window from_ to_ = s.window from_ to_) :
    slice s'.heights from_ to_ = slice s.heights from_ to_ ∧
      ∀ x ∈ slice s.heights from_ to_, s'.value x = s.value x := by
  have hslice : slice s'.heights from_ to_ = slice s.heights from_ to_ := by
    rw [← map_fst_window, h, map_fst_window]
  refine ⟨hslice, fun x hx => ?_⟩
  unfold window at h
  rw [hslice, List.map_inj_left] at h
  exact (Prod.mk.inj (h x hx)).2

/-- A later height, if there is something to write. -/
theorem window_pushSome (hs : s.UpTo n) (hn : n < height) (hle : from_ ≤ to_) (hto : to_ < height)
    (ht : threshold ≤ from_) (hpos : 1 ≤ from_) :
    (s.pushSome height threshold v).window from_ to_ = s.window from_ to_ := by
  rcases v with _ | v
  · rfl
  · exact window_push hs hn hle hto ht hpos

theorem mem_slice {l : List ℕ} (hl : l.Pairwise (· > ·)) (hle : from_ ≤ to_) (hpos : 1 ≤ from_)
    {h : ℕ} (hh : h ∈ slice l from_ to_) : h ≤ to_ := by
  rw [slice_of_sorted hl hle, List.mem_append, List.mem_singleton] at hh
  rcases hh with hh | rfl
  · have hin := (List.mem_filter.mp hh).2
    rw [decide_eq_true_eq] at hin
    exact hin.2
  · rcases hx : l.find? (· ≤ from_) with _ | x
    · exact Nat.le_trans hpos hle
    · have hle' := List.find?_some hx
      rw [decide_eq_true_eq] at hle'
      exact Nat.le_trans hle' hle

/-- A height at which nothing was written. -/
theorem slice_succ (hs : s.UpTo n) (hle : from_ ≤ n) :
    slice s.heights from_ (n + 1) = slice s.heights from_ n := by
  rw [slice_of_sorted hs.sorted hle, slice_of_sorted hs.sorted (Nat.le_succ_of_le hle)]
  congr 1
  refine List.filter_congr fun x hx => ?_
  have := hs.le x hx
  rw [Bool.eq_iff_iff, decide_eq_true_eq, decide_eq_true_eq]
  omega

/-- The height that is written comes first. -/
theorem slice_push (hs : s.UpTo n) (hle : from_ ≤ n) (ht : threshold ≤ from_) (hpos : 1 ≤ from_) :
    slice (s.push (n + 1) threshold v).heights from_ (n + 1) =
      (n + 1) :: slice s.heights from_ n := by
  have hpush : (s.push (n + 1) threshold v).UpTo (n + 1) := hs.push (Nat.lt_succ_self n)
  have hbelow : slice (s.push (n + 1) threshold v).heights from_ n = slice s.heights from_ n := by
    have hwindow := window_push (v := v) hs (Nat.lt_succ_self n) hle (Nat.lt_succ_self n) ht hpos
    rw [← map_fst_window, hwindow, map_fst_window]
  rw [← hbelow, slice_of_sorted hpush.sorted (Nat.le_succ_of_le hle),
    slice_of_sorted hpush.sorted hle]
  have htop : (s.push (n + 1) threshold v).heights.filter (fun h => from_ < h ∧ h ≤ n + 1) =
      (n + 1) :: (s.push (n + 1) threshold v).heights.filter (fun h => from_ < h ∧ h ≤ n) := by
    have hsorted := hpush.sorted
    rw [push, List.cons_append, List.pairwise_cons] at hsorted
    rw [push, List.cons_append, List.filter_cons_of_pos (by rw [decide_eq_true_eq]; omega),
      List.filter_cons_of_neg (by rw [decide_eq_true_eq]; omega)]
    congr 1
    refine List.filter_congr fun x hx => ?_
    have := hsorted.1 x hx
    rw [Bool.eq_iff_iff, decide_eq_true_eq, decide_eq_true_eq]
    omega
  rw [htop, List.cons_append]

/-- The first height of a range that ends now has the value now. -/
theorem value_head_slice (hs : s.UpTo n) (hle : from_ ≤ n)
    (hpos : 1 ≤ from_) :
    ∃ h rest, slice s.heights from_ n = h :: rest ∧ s.value h = s.latest ∧ h ≤ n := by
  have hmem : ∀ h ∈ slice s.heights from_ n, h ≤ n := fun h hh =>
    mem_slice hs.sorted hle hpos hh
  suffices hhead : ∃ h rest, slice s.heights from_ n = h :: rest ∧ s.value h = s.latest by
    obtain ⟨h, rest, hslice, hvalue⟩ := hhead
    exact ⟨h, rest, hslice, hvalue, hmem h (by rw [hslice]; exact List.mem_cons_self)⟩
  rw [slice_of_sorted hs.sorted hle, latest]
  rcases hl : s.heights with _ | ⟨x, rest⟩
  · -- nothing was ever written
    refine ⟨1, [], rfl, ?_⟩
    rw [List.head?_nil, Option.bind_none]
    rcases hv : s.value 1 with _ | w
    · rfl
    · have := hs.written 1 (by rw [hv]; rfl)
      rw [hl] at this
      cases this
  · have hx := hs.le x (by rw [hl]; exact List.mem_cons_self)
    rw [List.head?_cons, Option.bind_some]
    by_cases hin : from_ < x
    · rw [List.filter_cons_of_pos (by rw [decide_eq_true_eq]; exact ⟨hin, hx⟩), List.cons_append]
      exact ⟨x, _, rfl, rfl⟩
    · have hnone : (x :: rest).filter (fun h => from_ < h ∧ h ≤ n) = [] := by
        rw [List.filter_eq_nil_iff]
        intro y hy
        have hsorted := hs.sorted
        rw [hl, List.pairwise_cons] at hsorted
        rw [decide_eq_true_eq]
        rcases List.mem_cons.mp hy with rfl | hy
        · omega
        · have := hsorted.1 y hy
          omega
      rw [hnone, List.nil_append, List.find?_cons_of_pos (by rw [decide_eq_true_eq]; omega),
        Option.getD_some]
      exact ⟨x, [], rfl, rfl⟩

end

end History

namespace WavesNode

/-! ## 2. Merging -/

namespace LevelDBWriter

/-- A round takes the later of the two heights off its list. -/
def mergeStep (rounds wh : ℕ) (wt : List ℕ) (lh : ℕ) (lt : List ℕ) : List (ℕ × ℕ) :=
  match wt, lt with
  | [], [] => []
  | [], l :: lt => recMergeFixed rounds wh [] l lt
  | w :: wt, [] => recMergeFixed rounds w wt lh []
  | w :: wt, l :: lt =>
    if wh = lh then recMergeFixed rounds w wt l lt
    else if wh > lh then recMergeFixed rounds w wt lh (l :: lt)
    else recMergeFixed rounds wh (w :: wt) l lt

theorem recMergeFixed_succ (rounds wh : ℕ) (wt : List ℕ) (lh : ℕ) (lt : List ℕ) :
    recMergeFixed (rounds + 1) wh wt lh lt = (wh, lh) :: mergeStep rounds wh wt lh lt := by
  cases wt <;> cases lt <;> rfl

/-- As many rounds as there are heights are enough. -/
theorem recMergeFixed_eq :
    ∀ (rounds rounds' wh : ℕ) (wt : List ℕ) (lh : ℕ) (lt : List ℕ),
      wt.length + lt.length ≤ rounds → wt.length + lt.length ≤ rounds' →
      recMergeFixed rounds wh wt lh lt = recMergeFixed rounds' wh wt lh lt := by
  -- nothing is left to merge where there are no rounds
  have hzero : ∀ (rounds wh : ℕ) (wt : List ℕ) (lh : ℕ) (lt : List ℕ),
      wt.length + lt.length ≤ 0 → recMergeFixed rounds wh wt lh lt = [(wh, lh)] := by
    intro rounds wh wt lh lt hle
    obtain rfl := List.length_eq_zero_iff.mp (show wt.length = 0 by omega)
    obtain rfl := List.length_eq_zero_iff.mp (show lt.length = 0 by omega)
    cases rounds <;> rfl
  intro rounds
  induction rounds with
  | zero =>
    intro rounds' wh wt lh lt hle _
    rw [hzero 0 wh wt lh lt hle, hzero rounds' wh wt lh lt hle]
  | succ rounds ih =>
    intro rounds' wh wt lh lt hle hle'
    cases rounds' with
    | zero => rw [hzero 0 wh wt lh lt hle', hzero (rounds + 1) wh wt lh lt hle']
    | succ rounds' =>
      rw [recMergeFixed_succ, recMergeFixed_succ]
      congr 1
      unfold mergeStep
      -- a step takes a height off one list, or off both
      split
      · rfl
      · rw [List.length_cons] at hle hle'
        exact ih _ _ _ _ _ (by omega) (by omega)
      · rw [List.length_cons] at hle hle'
        exact ih _ _ _ _ _ (by omega) (by omega)
      · rw [List.length_cons, List.length_cons] at hle hle'
        split
        · exact ih _ _ _ _ _ (by omega) (by omega)
        · split
          · exact ih _ _ _ _ _ (by rw [List.length_cons]; omega) (by rw [List.length_cons]; omega)
          · exact ih _ _ _ _ _ (by rw [List.length_cons]; omega) (by rw [List.length_cons]; omega)

/-- A height of both histories comes first. -/
theorem merge_cons_cons (x a b : ℕ) (l l' : List ℕ) :
    merge (x :: a :: l) (x :: b :: l') = (x, x) :: merge (a :: l) (b :: l') := by
  have hstep : mergeStep (l.length + l'.length + 1) x (a :: l) x (b :: l') =
      recMergeFixed (l.length + l'.length + 1) a l b l' := if_pos rfl
  have hrounds : (a :: l).length + (b :: l').length = l.length + l'.length + 1 + 1 := by
    rw [List.length_cons, List.length_cons]
    omega
  rw [merge, merge, hrounds, recMergeFixed_succ, hstep,
    recMergeFixed_eq _ (l.length + l'.length) _ _ _ _ (by omega) (by omega)]

/-- A height of the first history alone. -/
theorem merge_cons_left {x b : ℕ} (hx : b < x) (a : ℕ) (l l' : List ℕ) :
    merge (x :: a :: l) (b :: l') = (x, b) :: merge (a :: l) (b :: l') := by
  have hstep : mergeStep (l.length + l'.length) x (a :: l) b l' =
      recMergeFixed (l.length + l'.length) a l b l' := by
    cases l' with
    | nil => rfl
    | cons c l' => exact (if_neg (by omega)).trans (if_pos hx)
  rw [merge, merge, List.length_cons, Nat.add_right_comm, recMergeFixed_succ, hstep]

/-- A height of the second history alone. -/
theorem merge_cons_right {x a : ℕ} (hx : a < x) (b : ℕ) (l l' : List ℕ) :
    merge (a :: l) (x :: b :: l') = (a, x) :: merge (a :: l) (b :: l') := by
  have hstep : mergeStep (l.length + l'.length) a l x (b :: l') =
      recMergeFixed (l.length + l'.length) a l b l' := by
    cases l with
    | nil => rfl
    | cons c l => exact (if_neg (by omega)).trans (if_neg (by omega))
  rw [merge, merge, List.length_cons, ← Nat.add_assoc, recMergeFixed_succ, hstep]

theorem head_merge (a b : ℕ) (l l' : List ℕ) :
    ∃ rest, merge (a :: l) (b :: l') = (a, b) :: rest := by
  rw [merge]
  rcases l.length + l'.length with _ | rounds
  · exact ⟨[], rfl⟩
  · rw [recMergeFixed_succ]
    exact ⟨_, rfl⟩

/-- What is merged comes from both. -/
theorem mem_recMergeFixed {p : ℕ × ℕ} :
    ∀ {rounds wh : ℕ} {wt : List ℕ} {lh : ℕ} {lt : List ℕ},
      p ∈ recMergeFixed rounds wh wt lh lt → p.1 ∈ wh :: wt ∧ p.2 ∈ lh :: lt := by
  intro rounds
  induction rounds with
  | zero =>
    intro wh wt lh lt hp
    rw [recMergeFixed, List.mem_singleton] at hp
    rw [hp]
    exact ⟨List.mem_cons_self, List.mem_cons_self⟩
  | succ rounds ih =>
    intro wh wt lh lt hp
    rw [recMergeFixed_succ, List.mem_cons] at hp
    rcases hp with rfl | hp
    · exact ⟨List.mem_cons_self, List.mem_cons_self⟩
    · unfold mergeStep at hp
      split at hp
      · cases hp
      · exact ⟨(ih hp).1, List.mem_cons_of_mem _ (ih hp).2⟩
      · exact ⟨List.mem_cons_of_mem _ (ih hp).1, (ih hp).2⟩
      · split at hp
        · exact ⟨List.mem_cons_of_mem _ (ih hp).1, List.mem_cons_of_mem _ (ih hp).2⟩
        · split at hp
          · exact ⟨List.mem_cons_of_mem _ (ih hp).1, (ih hp).2⟩
          · exact ⟨(ih hp).1, List.mem_cons_of_mem _ (ih hp).2⟩

theorem mem_merge {p : ℕ × ℕ} {l l' : List ℕ} (hp : p ∈ merge l l') : p.1 ∈ l ∧ p.2 ∈ l' := by
  cases l with
  | nil => cases hp
  | cons a l =>
    cases l' with
    | nil => cases hp
    | cons b l' => exact mem_recMergeFixed hp

/-! ## 3. Histories that end with the chain -/

section

variable [Crypto] [PBTransactionSerializer] [BlockSerializer] [Ride]
variable {υ β : Type} {K : Kept υ β} {Q : LevelDBWriter → Event → Prop}

/-- The rounds of a rollback leave nothing above the height they end at, where the index has
what they take off, and what there was at it and below. -/
theorem Kept.upTo_discardBlocks (hK : K.Lawful Q) {targetHeight : ℕ} :
    ∀ (n : ℕ) {w : LevelDBWriter}, (K.history w.db).UpTo (targetHeight + n) →
      (∀ h ∈ (K.history w.db).heights, targetHeight < h → K.undone w.db h) →
      (K.history (discardBlocks targetHeight n w).db).UpTo targetHeight ∧
        ∀ from_ to_, from_ ≤ to_ → to_ ≤ targetHeight → 1 ≤ from_ →
          (K.history (discardBlocks targetHeight n w).db).window from_ to_ =
            (K.history w.db).window from_ to_
  | 0, _, hupTo, _ => ⟨hupTo, fun _ _ _ _ _ => rfl⟩
  | n + 1, w, hupTo, hfound => by
    rw [LevelDBWriter.discardBlocks]
    -- the last height goes, or was never written
    have hround : (K.history (w.discardKeys (targetHeight + n + 1))).UpTo (targetHeight + n) ∧
        (∀ h ∈ (K.history (w.discardKeys (targetHeight + n + 1))).heights,
          h ∈ (K.history w.db).heights ∧ h ≠ targetHeight + n + 1) ∧
        ∀ from_ to_, from_ ≤ to_ → to_ ≤ targetHeight → 1 ≤ from_ →
          (K.history (w.discardKeys (targetHeight + n + 1))).window from_ to_ =
            (K.history w.db).window from_ to_ := by
      rcases hK.discard w (targetHeight + n + 1) with ⟨hhistory, -⟩ | ⟨hnot, hhistory, -⟩
      · rw [hhistory]
        refine ⟨History.UpTo.drop_last hupTo, fun h hh => ⟨(List.mem_filter.mp hh).1, ?_⟩, ?_⟩
        · rintro rfl
          exact History.not_mem_heights_drop _ hh
        · intro from_ to_ hle hto hpos
          exact History.window_drop hupTo hle (by omega) hpos
      · have hlast : targetHeight + n + 1 ∉ (K.history w.db).heights := fun hmem =>
          hnot (hfound _ hmem (by omega))
        rw [hhistory]
        refine ⟨History.UpTo.pred hupTo hlast, fun h hh => ⟨hh, ?_⟩, fun _ _ _ _ _ => rfl⟩
        rintro rfl
        exact hlast hh
    obtain ⟨hupTo', hheights, hwindow⟩ := hround
    have hrest := Kept.upTo_discardBlocks hK n (w := w.discardBlock (targetHeight + n + 1)) hupTo' (by
      intro h hh hlt
      obtain ⟨hold, hne⟩ := hheights h hh
      have := hupTo.le h hold
      exact hK.undone_discard w _ h (by omega) (hfound h hold hlt))
    refine ⟨hrest.1, fun from_ to_ hle hto hpos => ?_⟩
    rw [hrest.2 from_ to_ hle hto hpos]
    exact hwindow from_ to_ hle hto hpos

/-- Whatever the rounds leave in a history was in it. -/
theorem Kept.heights_discardBlocks (hK : K.Lawful Q) {targetHeight h : ℕ} :
    ∀ (n : ℕ) {w : LevelDBWriter},
      h ∈ (K.history (discardBlocks targetHeight n w).db).heights →
      h ∈ (K.history w.db).heights
  | 0, _, hh => hh
  | n + 1, w, hh => by
    rw [LevelDBWriter.discardBlocks] at hh
    have hmem : h ∈ (K.history (w.discardKeys (targetHeight + n + 1))).heights :=
      Kept.heights_discardBlocks hK n hh
    rcases hK.discard w (targetHeight + n + 1) with ⟨hhistory, -⟩ | ⟨-, hhistory, -⟩
    · rw [hhistory] at hmem
      exact (List.mem_filter.mp hmem).1
    · rwa [hhistory] at hmem

end

section

variable [Crypto] [PBTransactionSerializer]

/-- The index and the numbers of the addresses stay as they are. -/
theorem indexes_discardBlocks (targetHeight : ℕ) :
    ∀ (n : ℕ) (w : LevelDBWriter),
      (discardBlocks targetHeight n w).db.changedAddresses = w.db.changedAddresses ∧
        (discardBlocks targetHeight n w).db.addressId = w.db.addressId
  | 0, _ => ⟨rfl, rfl⟩
  | n + 1, w => indexes_discardBlocks targetHeight n (w.discardBlock (targetHeight + n + 1))

theorem safeRollbackHeight_discardBlocks (targetHeight : ℕ) :
    ∀ (n : ℕ) (w : LevelDBWriter),
      (discardBlocks targetHeight n w).db.safeRollbackHeight = w.db.safeRollbackHeight
  | 0, _ => rfl
  | n + 1, w =>
    safeRollbackHeight_discardBlocks targetHeight n (w.discardBlock (targetHeight + n + 1))

theorem safeRollbackHeight_rollbackTo {w v : LevelDBWriter} {id : BlockId}
    (hroll : w.rollbackTo id = .ok v) : v.db.safeRollbackHeight = w.db.safeRollbackHeight := by
  rw [rollbackTo_eq_ok hroll]
  change (w.doRollback id).db.safeRollbackHeight = _
  rw [LevelDBWriter.doRollback]
  split
  · rfl
  · exact safeRollbackHeight_discardBlocks _ _ w

/-- What a run keeps of the balances: no history has a height above the last block's, the
index has every height of a Waves balance, the caches hold what is stored, and an address
without a number has no history. -/
structure Settled (w : LevelDBWriter) : Prop where
  waves : ∀ a, (w.db.wavesBalance a).Tracked (fun h => a ∈ w.db.changedAddresses h) w.height
  lease : ∀ a, (w.db.leaseBalance a).UpTo w.height
  balance : ∀ a, (keptBalance a .Waves).Cached w
  leaseBalance : ∀ a, (keptLeaseBalance a).Cached w
  unnumbered : ∀ a, a ∉ w.db.addressId →
    (w.db.wavesBalance a).heights = [] ∧ (w.db.leaseBalance a).heights = []

/-- The index has every height above a target at which a lease balance changed. -/
def LeasesFound (w : LevelDBWriter) (targetHeight : ℕ) : Prop :=
  ∀ a, ∀ h ∈ (w.db.leaseBalance a).heights, targetHeight < h → a ∈ w.db.changedAddresses h

namespace Settled

variable {w v : LevelDBWriter}

omit [Crypto] [PBTransactionSerializer] in
theorem balance_eq (h : Settled w) (a : Address) :
    w.balance a .Waves = (w.db.wavesBalance a).latest.getD 0 := (h.balance a).answer_eq

omit [Crypto] [PBTransactionSerializer] in
theorem leaseBalance_eq (h : Settled w) (a : Address) :
    w.leaseBalance a = (w.db.leaseBalance a).latest.getD LeaseBalance.empty :=
  (h.leaseBalance a).answer_eq

variable [BlockSerializer] [Ride]

theorem append (h : Settled w) (d : Diff) (carry : Long) (reward : Option Long) (block : Block) :
    Settled (w.append d carry reward block) where
  waves a := by
    have hindex : ∀ k ≤ w.height, a ∈ w.db.changedAddresses k →
        a ∈ (w.doAppend d carry reward block).changedAddresses k := by
      intro k hk hmem
      change a ∈ if k = w.height + 1 then _ else w.db.changedAddresses k
      rwa [if_neg (by omega)]
    change ((w.db.wavesBalance a).pushSome (w.height + 1) _ (w.updatedBalance d a .Waves)).Tracked
      _ (w.height + 1)
    rcases hv : w.updatedBalance d a .Waves with _ | v
    · exact (h.waves a).keep hindex
    · refine (h.waves a).push hindex ?_
      change a ∈ if w.height + 1 = w.height + 1 then _ else _
      rw [if_pos rfl]
      exact updatedBalance_waves hv
  lease a := by
    change ((w.db.leaseBalance a).pushSome (w.height + 1) _ (w.updatedLeaseBalance d a)).UpTo
      (w.height + 1)
    rcases w.updatedLeaseBalance d a with _ | v
    · exact (h.lease a).mono (Nat.le_succ _)
    · exact (h.lease a).push (Nat.lt_succ_self _)
  balance a := (h.balance a).append (Q := fun _ _ => True) (writesThrough_keptBalance a .Waves) trivial
  leaseBalance a :=
    (h.leaseBalance a).append (Q := fun _ _ => True) (writesThrough_keptLeaseBalance a) trivial
  unnumbered a ha := by
    have hnew : a ∉ w.db.addressId ∧ a ∉ d.portfolios.dom := by
      have hunion : a ∉ w.db.addressId ∪ d.portfolios.dom ∪ transactionAddresses d := ha
      rw [Finset.mem_union, Finset.mem_union, not_or, not_or] at hunion
      exact hunion.1
    -- what has no portfolio is not written
    have hnone : d.portfolios.get? a = none := (d.portfolios.get?_eq_none_iff a).mpr hnew.2
    change ((w.db.wavesBalance a).pushSome _ _ (w.updatedBalance d a .Waves)).heights = [] ∧
      ((w.db.leaseBalance a).pushSome _ _ (w.updatedLeaseBalance d a)).heights = []
    rw [updatedBalance, updatedLeaseBalance, hnone]
    exact h.unnumbered a hnew.1

theorem rollbackTo (h : Settled w) (hw : Sound w) {id : BlockId} (hroll : w.rollbackTo id = .ok v)
    (hfound : ∀ targetHeight, w.db.heightOf id = some targetHeight → LeasesFound w targetHeight) :
    Settled v := by
  have hbalance := fun a => (h.balance a).rollbackTo (Q := fun _ _ => True)
    (writesThrough_keptBalance a .Waves) hw hroll
  have hleaseBalance := fun a => (h.leaseBalance a).rollbackTo (Q := fun _ _ => True)
    (writesThrough_keptLeaseBalance a) hw hroll
  suffices hheld : ∀ a, (((w.doRollback id).db.wavesBalance a).Tracked
      (fun h => a ∈ (w.doRollback id).db.changedAddresses h) (w.doRollback id).db.height) ∧
      ((w.doRollback id).db.leaseBalance a).UpTo (w.doRollback id).db.height ∧
      (a ∉ (w.doRollback id).db.addressId → ((w.doRollback id).db.wavesBalance a).heights = [] ∧
        ((w.doRollback id).db.leaseBalance a).heights = []) by
    rw [rollbackTo_eq_ok hroll] at hbalance hleaseBalance ⊢
    exact ⟨fun a => (hheld a).1, fun a => (hheld a).2.1, hbalance, hleaseBalance,
      fun a => (hheld a).2.2⟩
  intro a
  rw [LevelDBWriter.doRollback]
  rcases hid : w.db.heightOf id with _ | targetHeight
  · dsimp only
    rw [hw.height]
    exact ⟨h.waves a, h.lease a, h.unnumbered a⟩
  · dsimp only
    by_cases ht : targetHeight ≤ w.height
    · have hsplit : targetHeight + (w.height - targetHeight) = w.height := by omega
      rw [height_discardBlocks targetHeight w (w.height - targetHeight) (by rw [hw.height]; omega)]
      refine ⟨⟨?_, ?_⟩, ?_, ?_⟩
      · exact (Kept.upTo_discardBlocks (lawful_keptBalance a .Waves) (w.height - targetHeight)
          (by rw [hsplit]; exact (h.waves a).upTo) fun k hk _ => (h.waves a).indexed k hk).1
      · intro k hk
        have hold := (h.waves a).indexed k
          (Kept.heights_discardBlocks (lawful_keptBalance a .Waves) _ hk)
        rwa [(indexes_discardBlocks targetHeight _ w).1]
      · exact (Kept.upTo_discardBlocks (lawful_keptLeaseBalance a) (w.height - targetHeight)
          (by rw [hsplit]; exact h.lease a) fun k hk hlt => hfound targetHeight hid a k hk hlt).1
      · rw [(indexes_discardBlocks targetHeight _ w).2]
        intro ha
        obtain ⟨hwaves, hlease⟩ := h.unnumbered a ha
        constructor
        · refine List.eq_nil_iff_forall_not_mem.mpr fun k hk => ?_
          have hold := Kept.heights_discardBlocks (lawful_keptBalance a .Waves) _ hk
          change k ∈ (w.db.wavesBalance a).heights at hold
          rw [hwaves] at hold
          cases hold
        · refine List.eq_nil_iff_forall_not_mem.mpr fun k hk => ?_
          have hold := Kept.heights_discardBlocks (lawful_keptLeaseBalance a) _ hk
          change k ∈ (w.db.leaseBalance a).heights at hold
          rw [hlease] at hold
          cases hold
    · -- no round is made
      have hzero : w.height - targetHeight = 0 := by omega
      rw [hzero, LevelDBWriter.discardBlocks, hw.height]
      exact ⟨h.waves a, h.lease a, h.unnumbered a⟩

/-- **A rollback** leaves what is said of a range that ends at its target or below. -/
theorem window_rollbackTo (h : Settled w) (hw : Sound w) {id : BlockId} {from_ to_ : ℕ}
    (hroll : w.rollbackTo id = .ok v)
    (hfound : ∀ targetHeight, w.db.heightOf id = some targetHeight → LeasesFound w targetHeight)
    (hle : from_ ≤ to_) (hto : to_ ≤ v.height) (hpos : 1 ≤ from_) (a : Address) :
    (v.db.wavesBalance a).window from_ to_ = (w.db.wavesBalance a).window from_ to_ ∧
      (v.db.leaseBalance a).window from_ to_ = (w.db.leaseBalance a).window from_ to_ := by
  rw [rollbackTo_eq_ok hroll] at hto ⊢
  dsimp only at hto ⊢
  rw [LevelDBWriter.doRollback] at hto ⊢
  rcases hid : w.db.heightOf id with _ | targetHeight
  · exact ⟨rfl, rfl⟩
  · rw [hid] at hto
    dsimp only at hto ⊢
    by_cases ht : targetHeight ≤ w.height
    · have hsplit : targetHeight + (w.height - targetHeight) = w.height := by omega
      rw [height_discardBlocks targetHeight w (w.height - targetHeight)
        (by rw [hw.height]; omega)] at hto
      have hwaves := (Kept.upTo_discardBlocks (lawful_keptBalance a .Waves)
        (w.height - targetHeight) (by rw [hsplit]; exact (h.waves a).upTo)
        fun k hk _ => (h.waves a).indexed k hk).2 from_ to_ hle hto hpos
      have hlease := (Kept.upTo_discardBlocks (lawful_keptLeaseBalance a)
        (w.height - targetHeight) (by rw [hsplit]; exact h.lease a)
        fun k hk hlt => hfound targetHeight hid a k hk hlt).2 from_ to_ hle hto hpos
      exact ⟨hwaves, hlease⟩
    · -- no round is made
      have hzero : w.height - targetHeight = 0 := by omega
      rw [hzero, LevelDBWriter.discardBlocks]
      exact ⟨rfl, rfl⟩

omit [Crypto] [PBTransactionSerializer] [BlockSerializer] [Ride] in
/-- The same keys and height, and the caches of the same values. -/
theorem of_db (h : Settled w) (hdb : v.db = w.db) (hheight : v.height = w.height)
    (hbalance : ∀ a, (keptBalance a .Waves).Cached v)
    (hleaseBalance : ∀ a, (keptLeaseBalance a).Cached v) : Settled v where
  waves a := by
    rw [hdb, hheight]
    exact h.waves a
  lease a := by
    rw [hdb, hheight]
    exact h.lease a
  balance := hbalance
  leaseBalance := hleaseBalance
  unnumbered a := by
    rw [hdb]
    exact h.unnumbered a

end Settled

end

end LevelDBWriter

/-! ## 4. Snapshots -/

namespace LevelDBWriter

section

variable {w v : LevelDBWriter} {a : Address} {from_ to_ : ℕ}

/-- The heights that the snapshots of a range are of. -/
def snapshotHeights (w : LevelDBWriter) (a : Address) (from_ to_ : ℕ) : List (ℕ × ℕ) :=
  merge (slice (w.db.wavesBalance a).heights from_ to_)
    (slice (w.db.leaseBalance a).heights from_ to_)

/-- An address without a number is answered as one without changes. -/
theorem Settled.balanceSnapshots_eq (hw : Settled w) {id : BlockId} :
    w.balanceSnapshots a from_ id =
      (w.snapshotHeights a from_ ((w.heightOf id).getD w.height)).map (w.snapshotAt a) := by
  unfold balanceSnapshots snapshotHeights
  split
  · rfl
  · rename_i hunnumbered
    obtain ⟨hwaves, hlease⟩ := hw.unnumbered a hunnumbered
    have hnone : (w.db.wavesBalance a).value 1 = none ∧ (w.db.leaseBalance a).value 1 = none := by
      constructor
      · rw [← Option.not_isSome_iff_eq_none]
        intro hsome
        have hmem := (hw.waves a).upTo.written 1 hsome
        rw [hwaves] at hmem
        cases hmem
      · rw [← Option.not_isSome_iff_eq_none]
        intro hsome
        have hmem := (hw.lease a).written 1 hsome
        rw [hlease] at hmem
        cases hmem
    rw [hwaves, hlease]
    change [_] = [w.snapshotAt a (1, 1)]
    unfold snapshotAt
    rw [hnone.1, hnone.2]
    rfl

/-- **Histories that say the same of a range** have the same snapshots there. -/
theorem map_snapshotAt_congr
    (hwaves : (v.db.wavesBalance a).window from_ to_ = (w.db.wavesBalance a).window from_ to_)
    (hlease : (v.db.leaseBalance a).window from_ to_ = (w.db.leaseBalance a).window from_ to_) :
    (v.snapshotHeights a from_ to_).map (v.snapshotAt a) =
      (w.snapshotHeights a from_ to_).map (w.snapshotAt a) ∧
      (w.snapshotHeights a from_ to_).map (v.snapshotAt a) =
        (w.snapshotHeights a from_ to_).map (w.snapshotAt a) := by
  obtain ⟨hwavesSlice, hwavesValue⟩ := History.of_window_eq hwaves
  obtain ⟨hleaseSlice, hleaseValue⟩ := History.of_window_eq hlease
  have hvalues : (w.snapshotHeights a from_ to_).map (v.snapshotAt a) =
      (w.snapshotHeights a from_ to_).map (w.snapshotAt a) := by
    refine List.map_congr_left fun p hp => ?_
    obtain ⟨hfirst, hsecond⟩ := mem_merge hp
    unfold snapshotAt
    rw [hwavesValue p.1 hfirst, hleaseValue p.2 hsecond]
  refine ⟨?_, hvalues⟩
  rw [← hvalues]
  unfold snapshotHeights
  rw [hwavesSlice, hleaseSlice]

/-- The effective balance now. -/
def effectiveNow (w : LevelDBWriter) (a : Address) : Long :=
  w.balance a .Waves + (w.leaseBalance a).in_ - (w.leaseBalance a).out

/-- A range that ends now begins with the effective balance now. -/
theorem Settled.head_snapshots (hw : Settled w) (hle : from_ ≤ w.height) (hpos : 1 ≤ from_) :
    ∃ rest, ((w.snapshotHeights a from_ w.height).map (w.snapshotAt a)).map
      BalanceSnapshot.effectiveBalance = w.effectiveNow a :: rest := by
  obtain ⟨h, sw, hslice, hvalue, -⟩ := History.value_head_slice (hw.waves a).upTo hle hpos
  obtain ⟨h', sl, hslice', hvalue', -⟩ := History.value_head_slice (hw.lease a) hle hpos
  obtain ⟨rest, hmerge⟩ := head_merge h h' sw sl
  refine ⟨(rest.map (w.snapshotAt a)).map BalanceSnapshot.effectiveBalance, ?_⟩
  rw [snapshotHeights, hslice, hslice', hmerge, List.map_cons, List.map_cons]
  congr 1
  unfold snapshotAt BalanceSnapshot.effectiveBalance effectiveNow
  dsimp only
  rw [hvalue, hvalue', ← hw.balance_eq, ← hw.leaseBalance_eq]

variable [Crypto] [PBTransactionSerializer]
variable (d : Diff) (carry : Long) (reward : Option Long) (block : Block)

theorem Settled.window_append (hw : Settled w) (hle : from_ ≤ to_) (hto : to_ ≤ w.height)
    (ht : w.height + 1 - (w.dbSettings.maxRollbackDepth + 1000) ≤ from_) (hpos : 1 ≤ from_) :
    ((w.append d carry reward block).db.wavesBalance a).window from_ to_ =
        (w.db.wavesBalance a).window from_ to_ ∧
      ((w.append d carry reward block).db.leaseBalance a).window from_ to_ =
        (w.db.leaseBalance a).window from_ to_ :=
  ⟨History.window_pushSome (hw.waves a).upTo (Nat.lt_succ_self _) hle (by omega) ht hpos,
    History.window_pushSome (hw.lease a) (Nat.lt_succ_self _) hle (by omega) ht hpos⟩

/-- **A block on top** has a snapshot before those there were, or none where neither balance
changes. -/
theorem Settled.snapshots_append (hw : Settled w) (hle : from_ ≤ w.height)
    (ht : w.height + 1 - (w.dbSettings.maxRollbackDepth + 1000) ≤ from_) (hpos : 1 ≤ from_) :
    (w.append d carry reward block).snapshotHeights a from_ (w.height + 1) =
        w.snapshotHeights a from_ w.height ∨
      ∃ top, (w.append d carry reward block).snapshotHeights a from_ (w.height + 1) =
        top :: w.snapshotHeights a from_ w.height := by
  have hwaves := (hw.waves a).upTo
  have hlease := hw.lease a
  obtain ⟨h, sw, hslice, -, hh⟩ := History.value_head_slice hwaves hle hpos
  obtain ⟨h', sl, hslice', -, hh'⟩ := History.value_head_slice hlease hle hpos
  have hnew : (w.append d carry reward block).snapshotHeights a from_ (w.height + 1) = merge
      (slice ((w.db.wavesBalance a).pushSome (w.height + 1)
        (w.height + 1 - (w.dbSettings.maxRollbackDepth + 1000))
        (w.updatedBalance d a .Waves)).heights from_ (w.height + 1))
      (slice ((w.db.leaseBalance a).pushSome (w.height + 1)
        (w.height + 1 - (w.dbSettings.maxRollbackDepth + 1000))
        (w.updatedLeaseBalance d a)).heights from_ (w.height + 1)) := rfl
  rw [hnew, snapshotHeights, hslice, hslice']
  rcases w.updatedBalance d a .Waves with _ | balance
  · rw [History.pushSome, History.slice_succ hwaves hle]
    rcases w.updatedLeaseBalance d a with _ | leaseBalance
    · rw [History.pushSome, History.slice_succ hlease hle, hslice, hslice']
      exact .inl rfl
    · rw [History.pushSome, History.slice_push hlease hle ht hpos, hslice, hslice',
        merge_cons_right (by omega)]
      exact .inr ⟨_, rfl⟩
  · rw [History.pushSome, History.slice_push hwaves hle ht hpos]
    rcases w.updatedLeaseBalance d a with _ | leaseBalance
    · rw [History.pushSome, History.slice_succ hlease hle, hslice, hslice',
        merge_cons_left (by omega)]
      exact .inr ⟨_, rfl⟩
    · rw [History.pushSome, History.slice_push hlease hle ht hpos, hslice, hslice',
        merge_cons_cons]
      exact .inr ⟨_, rfl⟩

end

end LevelDBWriter

/-! ## 5. In every run -/

namespace StoredUpdater

section

open LevelDBWriter

variable [Crypto] [PBTransactionSerializer] [BlockSerializer] [Ride]
variable {settings : BlockchainSettings} {dbSettings : DBSettings} {s s' : StoredUpdater}

/-- The condition on a run: identifiers are not repeated, and a rollback finds every lease
balance that it has to take back. -/
def BalancesFollowed (s : StoredUpdater) (e : Event) : Prop :=
  FreshIds s e ∧ ∀ id, e = .removeAfter id → ∀ targetHeight,
    s.blockchain.db.heightOf id = some targetHeight → s.blockchain.LeasesFound targetHeight

theorem settled_leads {e : Event} (hchained : Chained settings s.blockchain)
    (hs : s.blockchain.Settled) (hQ : BalancesFollowed s e) (h : e.Leads s s') :
    s'.blockchain.Settled := by
  -- what an event does to the caches alone
  have hcaches : ∀ {e : LevelDBWriter.Event} {v : LevelDBWriter}, e.Leads s.blockchain v →
      (∀ a, (keptBalance a .Waves).Cached v) ∧ ∀ a, (keptLeaseBalance a).Cached v := fun hleads =>
    ⟨fun a => (hs.balance a).leads (Q := fun _ _ => True) (writesThrough_keptBalance a .Waves)
      hchained.sound trivial hleads,
    fun a => (hs.leaseBalance a).leads (Q := fun _ _ => True) (writesThrough_keptLeaseBalance a)
      hchained.sound trivial hleads⟩
  cases e with
  | processBlock block =>
    obtain ⟨discarded, h⟩ := h
    rcases processBlock_eq_ok h with rfl | ⟨w, r, reward, htaken, rfl⟩
    · exact hs
    · cases htaken with
      | first => exact hs
      | competitor => exact hs
      | next => exact hs.append _ _ _ _
  | processMicroBlock microBlock =>
    obtain ⟨ng, ledger, r, -, -, -, -, rfl⟩ := processMicroBlock_eq_ok h
    exact hs
  | removeAfter blockId =>
    cases h
    rcases removeAfter_cases s blockId with heq | heq | ⟨w, -, hroll, heq⟩
    · rw [heq]
      exact hs
    · rw [heq]
      exact hs
    · rw [heq]
      exact hs.rollbackTo hchained.sound hroll (hQ.2 blockId rfl)
  | load key =>
    cases h
    obtain ⟨hbalance, hleaseBalance⟩ := hcaches (e := .load key) rfl
    exact hs.of_db (db_load _ _) (height_load _ _) hbalance hleaseBalance
  | evict key =>
    cases h
    obtain ⟨hbalance, hleaseBalance⟩ := hcaches (e := .evict key) rfl
    exact hs.of_db (db_evict _ _) (height_evict _ _) hbalance hleaseBalance
  | restart =>
    cases h
    obtain ⟨hbalance, hleaseBalance⟩ := hcaches (e := .restart) rfl
    exact hs.of_db rfl hchained.sound.height hbalance hleaseBalance

theorem settled_reachable (h : Reachable BalancesFollowed settings dbSettings s) :
    s.blockchain.Settled := by
  induction h with
  | start autoShutdown =>
    refine ⟨fun a => History.tracked_empty 0, fun a => History.upTo_empty 0, ?_, ?_,
      fun a _ => ⟨rfl, rfl⟩⟩
    · exact fun a => Kept.cached_reachable (Q := fun _ _ => True)
        (writesThrough_keptBalance a .Waves) .empty
    · exact fun a => Kept.cached_reachable (Q := fun _ _ => True)
        (writesThrough_keptLeaseBalance a) .empty
  | step hrun hQ hleads ih => exact settled_leads hrun.chained ih hQ hleads

end

/-! ## 6. The liquid block and the database -/

section

open LevelDBWriter

variable [Crypto] [PBTransactionSerializer] [BlockSerializer] [Ride]
variable {settings : BlockchainSettings} {dbSettings : DBSettings} {s s' : StoredUpdater}

omit [Crypto] [PBTransactionSerializer] [BlockSerializer] [Ride] in
/-- The depth of a range, at the height it ends at. -/
theorem depth_bounds (generationBalanceDepthFrom50To1000AfterHeight height : ℕ) :
    2 ≤ (if height ≥ generationBalanceDepthFrom50To1000AfterHeight then
        GeneratingBalanceProvider.SecondDepth else GeneratingBalanceProvider.FirstDepth) ∧
      (if height ≥ generationBalanceDepthFrom50To1000AfterHeight then
        GeneratingBalanceProvider.SecondDepth else GeneratingBalanceProvider.FirstDepth) ≤ 1000 := by
  split
  · exact ⟨by decide, by decide⟩
  · exact ⟨by decide, by decide⟩

omit [Crypto] [PBTransactionSerializer] [BlockSerializer] [Ride] in
/-- What the database answers for a block that it has: the least of its snapshots. -/
theorem balance_persistedAt {w : LevelDBWriter} {id : BlockId} {m depth : ℕ} {a : Address}
    (hw : w.Settled) (hne : id ≠ []) (hid : w.heightOf id = some m)
    {generationBalanceDepthFrom50To1000AfterHeight : ℕ}
    (hdepth : depth = if m ≥ generationBalanceDepthFrom50To1000AfterHeight then
      GeneratingBalanceProvider.SecondDepth else GeneratingBalanceProvider.FirstDepth) :
    GeneratingBalanceProvider.balance generationBalanceDepthFrom50To1000AfterHeight
        w.balanceReader a id =
      .ok ((((w.snapshotHeights a (min (max (m - depth + 1) 1) m) m).map (w.snapshotAt a)).map
        BalanceSnapshot.effectiveBalance).min?.getD 0) := by
  unfold GeneratingBalanceProvider.balance
  have hreader : w.balanceReader.heightOf id = some m := hid
  have hheight : Validation.get s!"Invalid block ref: {ByteStr.stringRepr id}"
      (w.balanceReader.heightOf id) = .ok m := Validation.get_eq_ok.mpr hreader
  rw [if_neg hne, hheight, Validation.ok_bind]
  dsimp only
  rw [← hdepth]
  unfold BalanceReader.effectiveBalance
  change (Except.ok (w.balanceSnapshots a _ id) >>= _) = _
  rw [hreader, Option.getD_some, hw.balanceSnapshots_eq, hid, Option.getD_some]
  rfl

omit [Crypto] [PBTransactionSerializer] [BlockSerializer] [Ride] in
/-- Two snapshots of one effective balance count once. -/
theorem min?_cons_self (x : Long) (l : List Long) : (x :: x :: l).min? = (x :: l).min? := by
  have hself : min x x = x := ite_self x
  rw [List.min?_cons', List.min?_cons', List.foldl_cons, hself]

omit [BlockSerializer] [Ride] in
/-- What the node answers for a liquid block: the least of what the liquid block makes of the
account and of the snapshots before. -/
theorem balance_liquid {ng : NgState} {id : BlockId} {diff : Diff} {carry fee : Long} {depth : ℕ}
    {a : Address} (hw : s.blockchain.Settled) (hng : s.ngState = some ng) (hne : id ≠ [])
    (hcontains : ng.contains id = true) (hunknown : s.blockchain.heightOf id = none)
    (hdiff : ng.diffFor id = .ok (diff, carry, fee))
    {generationBalanceDepthFrom50To1000AfterHeight : ℕ}
    (hdepth : depth = if s.blockchain.height + 1 ≥ generationBalanceDepthFrom50To1000AfterHeight
      then GeneratingBalanceProvider.SecondDepth else GeneratingBalanceProvider.FirstDepth) :
    GeneratingBalanceProvider.balance generationBalanceDepthFrom50To1000AfterHeight
        s.balanceReader a id =
      .ok (((BalanceSnapshot.ofPortfolio (s.blockchain.height + 1)
          ((⟨s.blockchain.balance a .Waves, s.blockchain.leaseBalance a, ∅⟩ : Portfolio).combine
            ((ng.cancelExpiredLeases diff).portfolios.of a))).effectiveBalance ::
        if 0 < s.blockchain.height then
          ((s.blockchain.snapshotHeights a
            (min (max (s.blockchain.height + 1 - depth + 1) 1) (s.blockchain.height + 1))
            s.blockchain.height).map (s.blockchain.snapshotAt a)).map
              BalanceSnapshot.effectiveBalance
        else []).min?.getD 0) := by
  have hbounds := depth_bounds generationBalanceDepthFrom50To1000AfterHeight
    (s.blockchain.height + 1)
  rw [← hdepth] at hbounds
  unfold GeneratingBalanceProvider.balance
  have hreader : s.balanceReader.heightOf id = some (s.blockchain.height + 1) := by
    change (s.blockchain.heightOf id).or
      (if s.ngState.any (fun ng => ng.contains id) then some s.height else none) = _
    rw [hunknown, hng, Option.any_some, hcontains, if_pos rfl, height_of_some hng, Option.none_or]
  have hheight : Validation.get s!"Invalid block ref: {ByteStr.stringRepr id}"
      (s.balanceReader.heightOf id) = .ok (s.blockchain.height + 1) :=
    Validation.get_eq_ok.mpr hreader
  rw [if_neg hne, hheight, Validation.ok_bind]
  dsimp only
  rw [← hdepth]
  unfold BalanceReader.effectiveBalance
  rw [hreader, Option.getD_some]
  dsimp only
  generalize hfrom : min (max (s.blockchain.height + 1 - depth + 1) 1) (s.blockchain.height + 1) =
    from_
  have hportfolio : s.lposPortfolioFromNG a id =
      .ok ((⟨s.blockchain.balance a .Waves, s.blockchain.leaseBalance a, ∅⟩ : Portfolio).combine
        ((ng.cancelExpiredLeases diff).portfolios.of a)) := by
    unfold lposPortfolioFromNG NgState.balanceDiffAt
    rw [hng]
    dsimp only
    rw [hdiff]
    rfl
  have hsnapshots : s.balanceReader.balanceSnapshots a from_ id =
      .ok (.ofPortfolio (s.blockchain.height + 1)
          ((⟨s.blockchain.balance a .Waves, s.blockchain.leaseBalance a, ∅⟩ : Portfolio).combine
            ((ng.cancelExpiredLeases diff).portfolios.of a)) ::
        if 0 < s.blockchain.height then
          (s.blockchain.snapshotHeights a from_ s.blockchain.height).map (s.blockchain.snapshotAt a)
        else []) := by
    change s.balanceSnapshots a from_ id = _
    unfold balanceSnapshots
    have hliquid : ¬ ((none : Option ℕ).isSome || (some ng).isNone) = true := Bool.false_ne_true
    rw [hunknown, hng, hportfolio, height_of_some hng, if_neg hliquid, Validation.ok_bind]
    by_cases hpos : 0 < s.blockchain.height
    · rw [if_pos ⟨hpos, by omega⟩, if_pos hpos, hw.balanceSnapshots_eq, hunknown, Option.getD_none]
    · rw [if_neg fun h => hpos h.1, if_neg hpos]
  rw [hsnapshots, Validation.ok_bind, List.map_cons]
  by_cases hpos : 0 < s.blockchain.height
  · rw [if_pos hpos, if_pos hpos]
  · rw [if_neg hpos, if_neg hpos, List.map_nil]

omit [BlockSerializer] [Ride] in
/-- What the liquid block makes of the account is what the account has once it is persisted. -/
theorem effectiveNow_append {w : LevelDBWriter} {d : Diff} (carry : Long) (reward : Option Long)
    (block : Block) {a : Address} {height : ℕ}
    (hrange : Long.InRange ((w.balance a .Waves).toInt + (d.portfolios.of a).balance.toInt)) :
    (w.append d carry reward block).effectiveNow a =
      (BalanceSnapshot.ofPortfolio height
        ((⟨w.balance a .Waves, w.leaseBalance a, ∅⟩ : Portfolio).combine
          (d.portfolios.of a))).effectiveBalance := by
  have hsum : w.balance a .Waves + (d.portfolios.of a).balance =
      safeSum (w.balance a .Waves) (d.portfolios.of a).balance := by
    refine Long.toInt_inj ?_
    rw [toInt_safeSum hrange, Long.toInt_add hrange]
  unfold LevelDBWriter.effectiveNow BalanceSnapshot.ofPortfolio BalanceSnapshot.effectiveBalance
  rw [balance_append, leaseBalance_append]
  dsimp only [Portfolio.balanceOf]
  rw [hsum]
  rfl

/-- **The liquid block persisted**: the generating balance is the same. -/
theorem balance_persisted {ng : NgState} {forged : Block} {diff : Diff} {carry fee : Long}
    (carry' : Long) (reward : Option Long) {a : Address} (hw : s.blockchain.Settled) (hng : s.ngState = some ng)
    (hne : forged.uniqueId ≠ []) (hcontains : ng.contains forged.uniqueId = true)
    (hunknown : s.blockchain.heightOf forged.uniqueId = none)
    (hdiff : ng.diffFor forged.uniqueId = .ok (diff, carry, fee))
    (hrange : Long.InRange ((s.blockchain.balance a .Waves).toInt +
      ((ng.cancelExpiredLeases diff).portfolios.of a).balance.toInt))
    (generationBalanceDepthFrom50To1000AfterHeight : ℕ) :
    GeneratingBalanceProvider.balance generationBalanceDepthFrom50To1000AfterHeight
        (s.blockchain.append (ng.cancelExpiredLeases diff) carry' reward forged).balanceReader a
        forged.uniqueId =
      GeneratingBalanceProvider.balance generationBalanceDepthFrom50To1000AfterHeight
        s.balanceReader a forged.uniqueId := by
  obtain ⟨depth, hdepth⟩ : ∃ depth, depth =
    if s.blockchain.height + 1 ≥ generationBalanceDepthFrom50To1000AfterHeight then
      GeneratingBalanceProvider.SecondDepth else GeneratingBalanceProvider.FirstDepth := ⟨_, rfl⟩
  have hbounds := depth_bounds generationBalanceDepthFrom50To1000AfterHeight
    (s.blockchain.height + 1)
  rw [← hdepth] at hbounds
  have hafter := hw.append (ng.cancelExpiredLeases diff) carry' reward forged
  have hid : (s.blockchain.append (ng.cancelExpiredLeases diff) carry' reward forged).heightOf
      forged.uniqueId = some (s.blockchain.height + 1) := heightOf_lastBlock rfl
  rw [balance_persistedAt hafter hne hid hdepth,
    balance_liquid hw hng hne hcontains hunknown hdiff hdepth]
  rw [← effectiveNow_append carry' reward forged hrange]
  generalize hfrom : min (max (s.blockchain.height + 1 - depth + 1) 1) (s.blockchain.height + 1) =
    from_
  have hhead : ∃ rest, _ = _ :: rest := hafter.head_snapshots (a := a)
    (show from_ ≤ s.blockchain.height + 1 by omega) (by omega)
  have hheight : (s.blockchain.append (ng.cancelExpiredLeases diff) carry' reward forged).height =
    s.blockchain.height + 1 := rfl
  rw [hheight] at hhead
  by_cases hpos : 0 < s.blockchain.height
  · rw [if_pos hpos]
    obtain ⟨rest, hrest⟩ := hhead
    have hwindow := hw.window_append (a := a) (ng.cancelExpiredLeases diff) carry' reward forged
      (show from_ ≤ s.blockchain.height by omega) (Nat.le_refl _) (by omega) (by omega)
    have hold := (LevelDBWriter.map_snapshotAt_congr hwindow.1 hwindow.2).2
    rcases hw.snapshots_append (a := a) (ng.cancelExpiredLeases diff) carry' reward forged
      (show from_ ≤ s.blockchain.height by omega) (by omega) (by omega) with hsame | ⟨top, htop⟩
    · -- neither balance changes: the last snapshot is counted twice
      rw [hsame, hold] at hrest
      rw [hsame, hold, hrest, min?_cons_self]
    · rw [htop, List.map_cons, hold, List.map_cons] at hrest
      obtain ⟨heq, -⟩ := List.cons.inj hrest
      rw [htop, List.map_cons, hold, List.map_cons, heq]
  · -- the first block has but one snapshot
    rw [if_neg hpos]
    obtain rfl : from_ = 1 := by omega
    obtain ⟨rest, hrest⟩ := hhead
    have hzero : s.blockchain.height = 0 := by omega
    rw [hzero] at hrest
    rw [hzero]
    have hone : ∀ l : List ℕ, l.Pairwise (· > ·) → ∃ x, LevelDBWriter.slice l 1 (0 + 1) = [x] := by
      intro l hl
      rw [History.slice_of_sorted hl (Nat.le_refl _), List.filter_eq_nil_iff.mpr]
      · exact ⟨_, rfl⟩
      · intro x _
        rw [decide_eq_true_eq]
        omega
    obtain ⟨x, hx⟩ := hone _ (hafter.waves a).upTo.sorted
    obtain ⟨y, hy⟩ := hone _ (hafter.lease a).sorted
    unfold LevelDBWriter.snapshotHeights at hrest ⊢
    rw [hx, hy] at hrest ⊢
    change [_] = _ :: rest at hrest
    obtain ⟨heq, -⟩ := List.cons.inj hrest
    rw [← heq]
    rfl

end

/-! ## 7. Blocks on top, and rollbacks -/

section

open LevelDBWriter

variable [Crypto] [PBTransactionSerializer] [BlockSerializer] [Ride]
variable {settings : BlockchainSettings} {dbSettings : DBSettings} {s s' s'' : StoredUpdater}
  {Q : StoredUpdater → Event → Prop} {m : ℕ}

/-- The nodes that a node becomes while no block up to a height is taken off. -/
inductive Stays (Q : StoredUpdater → Event → Prop) (m : ℕ) (s : StoredUpdater) :
    StoredUpdater → Prop
  | refl : Stays Q m s s
  | step {s' s'' : StoredUpdater} {e : Event} : Stays Q m s s' → Q s' e → e.Leads s' s'' →
    m ≤ s''.blockchain.height → Stays Q m s s''

theorem Stays.reachable (h : Stays Q m s s') (hs : Reachable Q settings dbSettings s) :
    Reachable Q settings dbSettings s' := by
  induction h with
  | refl => exact hs
  | step _ hQ hleads _ ih => exact .step ih hQ hleads

/-- What a database keeps of another: the block of a height, and what it says of the range of
heights that ends there, as long as the block may be rolled back to. -/
structure Keeps (w v : LevelDBWriter) (m : ℕ) : Prop where
  height : m ≤ v.height
  block : v.db.blockInfoAt m = w.db.blockInfoAt m
  windows : v.db.safeRollbackHeight < m → ∀ a from_, m ≤ from_ + 999 → 1 ≤ from_ → from_ ≤ m →
    (v.db.wavesBalance a).window from_ m = (w.db.wavesBalance a).window from_ m ∧
      (v.db.leaseBalance a).window from_ m = (w.db.leaseBalance a).window from_ m

omit [Crypto] [PBTransactionSerializer] [BlockSerializer] [Ride] in
theorem Keeps.of_db {w v v' : LevelDBWriter} (h : Keeps w v m) (hdb : v'.db = v.db)
    (hheight : v'.height = v.height) : Keeps w v' m where
  height := by
    rw [hheight]
    exact h.height
  block := by
    rw [hdb]
    exact h.block
  windows := by
    rw [hdb]
    exact h.windows

omit [BlockSerializer] [Ride] in
theorem Keeps.append {w v : LevelDBWriter} (h : Keeps w v m) (hv : v.Settled) (d : Diff)
    (carry : Long) (reward : Option Long) (block : Block) :
    Keeps w (v.append d carry reward block) m where
  height := Nat.le_succ_of_le h.height
  block := by
    have hle := h.height
    change (if m = v.height + 1 then some _ else v.db.blockInfoAt m) = _
    rw [if_neg (by omega)]
    exact h.block
  windows := by
    intro hsafe a from_ hfrom hpos hle
    have hmax : max v.db.safeRollbackHeight (v.height + 1 - v.dbSettings.maxRollbackDepth) < m :=
      hsafe
    obtain ⟨hwaves, hlease⟩ := h.windows (by omega) a from_ hfrom hpos hle
    -- what the block forgets lies below the range
    obtain ⟨hwaves', hlease'⟩ := hv.window_append (a := a) d carry reward block hle h.height
      (by omega) hpos
    exact ⟨hwaves'.trans hwaves, hlease'.trans hlease⟩

theorem Keeps.rollbackTo {w v v' : LevelDBWriter} {id : BlockId} (h : Keeps w v m)
    (hchained : Chained settings v) (hv : v.Settled) (hroll : v.rollbackTo id = .ok v')
    (hfound : ∀ targetHeight, v.db.heightOf id = some targetHeight →
      v.LeasesFound targetHeight) (hstays : m ≤ v'.height) : Keeps w v' m where
  height := hstays
  block := by
    rw [(hchained.rolledBack hroll).blockInfoAt, if_pos hstays]
    exact h.block
  windows := by
    intro hsafe a from_ hfrom hpos hle
    have hsame := safeRollbackHeight_rollbackTo hroll
    obtain ⟨hwaves, hlease⟩ := h.windows (by omega) a from_ hfrom hpos hle
    obtain ⟨hwaves', hlease'⟩ := hv.window_rollbackTo hchained.sound hroll hfound hle hstays hpos a
    exact ⟨hwaves'.trans hwaves, hlease'.trans hlease⟩

theorem Keeps.leads {w : LevelDBWriter} {e : Event} (h : Keeps w s.blockchain m)
    (hchained : Chained settings s.blockchain) (hs : s.blockchain.Settled)
    (hQ : BalancesFollowed s e) (hleads : e.Leads s s') (hstays : m ≤ s'.blockchain.height) :
    Keeps w s'.blockchain m := by
  cases e with
  | processBlock block =>
    obtain ⟨discarded, hleads⟩ := hleads
    rcases processBlock_eq_ok hleads with rfl | ⟨v, r, reward, htaken, rfl⟩
    · exact h
    · cases htaken with
      | first => exact h
      | competitor => exact h
      | next => exact h.append hs _ _ _ _
  | processMicroBlock microBlock =>
    obtain ⟨ng, ledger, r, -, -, -, -, rfl⟩ := processMicroBlock_eq_ok hleads
    exact h
  | removeAfter blockId =>
    cases hleads
    rcases removeAfter_cases s blockId with heq | heq | ⟨v, -, hroll, heq⟩
    · rw [heq]
      exact h
    · rw [heq]
      exact h
    · rw [heq] at hstays ⊢
      exact h.rollbackTo hchained hs hroll (hQ.2 blockId rfl) hstays
  | load key =>
    cases hleads
    exact h.of_db (db_load _ _) (height_load _ _)
  | evict key =>
    cases hleads
    exact h.of_db (db_evict _ _) (height_evict _ _)
  | restart =>
    cases hleads
    exact h.of_db rfl hchained.sound.height

theorem Stays.keeps (h : Stays BalancesFollowed m s s')
    (hs : Reachable BalancesFollowed settings dbSettings s) (hm : m ≤ s.blockchain.height) :
    Keeps s.blockchain s'.blockchain m := by
  induction h with
  | refl => exact ⟨hm, rfl, fun _ _ _ _ _ _ => ⟨rfl, rfl⟩⟩
  | step hrun hQ hleads hstays ih =>
    have hreach := hrun.reachable hs
    exact ih.leads hreach.chained (settled_reachable hreach) hQ hleads hstays

omit [BlockSerializer] [Ride] in
theorem balanceReader_of_none (hng : s.ngState = none) :
    s.balanceReader = s.blockchain.balanceReader := by
  unfold balanceReader LevelDBWriter.balanceReader
  congr 1
  · exact height_of_none hng
  · funext id
    unfold heightOf
    rw [hng]
    exact Option.or_none
  · funext a from_ id
    unfold balanceSnapshots
    rw [hng, if_pos (by rw [Option.isNone_none, Bool.or_true])]

omit [Crypto] [PBTransactionSerializer] [BlockSerializer] [Ride] in
/-- What the database keeps is enough for the generating balance. -/
theorem balance_of_keeps {w v : LevelDBWriter} {id : BlockId} {a : Address} (h : Keeps w v m)
    (hw : w.Settled) (hv : v.Settled) (hne : id ≠ []) (hpos : 1 ≤ m)
    (hid : w.heightOf id = some m) (hid' : v.heightOf id = some m)
    (hsafe : v.db.safeRollbackHeight < m) (generationBalanceDepthFrom50To1000AfterHeight : ℕ) :
    GeneratingBalanceProvider.balance generationBalanceDepthFrom50To1000AfterHeight
        v.balanceReader a id =
      GeneratingBalanceProvider.balance generationBalanceDepthFrom50To1000AfterHeight
        w.balanceReader a id := by
  obtain ⟨depth, hdepth⟩ : ∃ depth, depth =
    if m ≥ generationBalanceDepthFrom50To1000AfterHeight then
      GeneratingBalanceProvider.SecondDepth else GeneratingBalanceProvider.FirstDepth := ⟨_, rfl⟩
  have hbounds := depth_bounds generationBalanceDepthFrom50To1000AfterHeight m
  rw [← hdepth] at hbounds
  rw [balance_persistedAt hv hne hid' hdepth, balance_persistedAt hw hne hid hdepth]
  obtain ⟨hwaves, hlease⟩ := h.windows hsafe a (min (max (m - depth + 1) 1) m) (by omega)
    (by omega) (by omega)
  rw [(LevelDBWriter.map_snapshotAt_congr hwaves hlease).1]

/-- What the liquid block adds to the Waves of an account does not run over. -/
def WavesInRange (s : StoredUpdater) (a : Address) (id : BlockId) : Prop :=
  ∀ ng diff carry fee, s.ngState = some ng → ng.diffFor id = .ok (diff, carry, fee) →
    Long.InRange ((s.blockchain.balance a .Waves).toInt +
      ((ng.cancelExpiredLeases diff).portfolios.of a).balance.toInt)

/-- **The generating balance** of every account at a liquid block is the one at the same block
once it is persisted, and the one after every rollback to it. -/
theorem generating_balance_stable {a : Address} {block : Block} {discarded : List Transaction}
    (h : Reachable BalancesFollowed settings dbSettings s)
    (hrange : s.WavesInRange a block.header.reference)
    (hQ : BalancesFollowed s (.processBlock block))
    (hblock : s.processBlock block = .ok (s', some discarded))
    (hpersisted : s'.blockchain.height = s.blockchain.height + 1)
    (generationBalanceDepthFrom50To1000AfterHeight : ℕ) :
    GeneratingBalanceProvider.balance generationBalanceDepthFrom50To1000AfterHeight
        s'.blockchain.balanceReader a block.header.reference =
      GeneratingBalanceProvider.balance generationBalanceDepthFrom50To1000AfterHeight
        s.balanceReader a block.header.reference ∧
    ∀ s₁ s₂ blocks, Stays BalancesFollowed (s.blockchain.height + 1) s' s₁ →
      BalancesFollowed s₁ (.removeAfter block.header.reference) →
      s₁.removeAfter block.header.reference = (s₂, .ok blocks) →
      GeneratingBalanceProvider.balance generationBalanceDepthFrom50To1000AfterHeight
          s₂.balanceReader a block.header.reference =
        GeneratingBalanceProvider.balance generationBalanceDepthFrom50To1000AfterHeight
          s.balanceReader a block.header.reference := by
  have hs := settled_reachable h
  have hidentified := identified_reachable (h.mono fun _ _ hQ => hQ.1)
  have hthreaded := threaded_reachable h
  have hs' : Reachable BalancesFollowed settings dbSettings s' :=
    .step h hQ ⟨some discarded, hblock⟩
  -- the block makes the liquid block up to its reference final
  rcases processBlock_eq_ok hblock with rfl | ⟨w, r, reward, htaken, rfl⟩
  · omega
  cases htaken with
  | first => dsimp only at hpersisted; omega
  | competitor => dsimp only at hpersisted; omega
  | @next ng forged diff carry fee _ _ _ hng _ hforge hdiff =>
    obtain ⟨hforged, -⟩ := forgeBlock_eq_some hforge
    have hcontains := contains_of_forgeBlock (hidentified.liquid ng hng) (by rw [hforge]; rfl)
    have hfresh := hidentified.apart ng hng _ hcontains
    have hrangeOf := hrange ng diff carry fee hng hdiff
    have hunknown : s.blockchain.heightOf block.header.reference = none := by
      rw [heightOf_eq hthreaded hidentified.unrepeated]
      exact hfresh.unknown
    rw [← hforged] at hcontains hdiff hunknown hfresh ⊢
    have hsame := balance_persisted carry ng.reward hs hng hfresh.nonempty hcontains
      hunknown hdiff hrangeOf generationBalanceDepthFrom50To1000AfterHeight
    refine ⟨hsame, ?_⟩
    intro s₁ s₂ blocks hstays hQ₁ hremove
    rw [← hsame]
    -- the database after the block, and the node that rolls back to it
    have hkeeps := hstays.keeps hs' (Nat.le_refl _)
    have hreach₁ := hstays.reachable hs'
    have hreach₂ : Reachable BalancesFollowed settings dbSettings s₂ := by
      refine .step hreach₁ hQ₁ ?_
      exact congrArg Prod.fst hremove
    have hat : (s.blockchain.append (ng.cancelExpiredLeases diff) carry ng.reward forged).heightOf
        forged.uniqueId = some (s.blockchain.height + 1) := heightOf_lastBlock rfl
    have hinfo : ∃ info, (s.blockchain.append (ng.cancelExpiredLeases diff) carry ng.reward
        forged).db.blockInfoAt (s.blockchain.height + 1) = some info ∧
          info.signature = forged.uniqueId := ⟨_, if_pos rfl, rfl⟩
    obtain ⟨info, hinfo, hsignature⟩ := hinfo
    -- where it has the block, it finds it
    have hfound : ∀ {t : StoredUpdater}, Reachable BalancesFollowed settings dbSettings t →
        t.blockchain.db.blockInfoAt (s.blockchain.height + 1) = some info →
        t.blockchain.db.heightOf forged.uniqueId = some (s.blockchain.height + 1) ∧
          t.blockchain.heightOf forged.uniqueId = some (s.blockchain.height + 1) := by
      intro t ht hblock
      have hunrepeated := (identified_reachable (ht.mono fun _ _ hQ => hQ.1)).unrepeated
      have hheight := hunrepeated _ info hblock
      rw [hsignature] at hheight
      rw [heightOf_eq (threaded_reachable ht) hunrepeated]
      exact ⟨hheight, hheight⟩
    obtain ⟨hid₁, hheightOf₁⟩ := hfound hreach₁ (hkeeps.block.trans hinfo)
    unfold removeAfter at hremove
    split at hremove
    · -- no liquid block on top contains it
      rename_i hany
      obtain ⟨ng₁, hng₁, hcontains₁⟩ := (Option.any_eq_true ..).mp hany
      have hunknown₁ := ((identified_reachable (hreach₁.mono fun _ _ hQ => hQ.1)).apart ng₁ hng₁ _
        hcontains₁).unknown
      rw [hid₁] at hunknown₁
      cases hunknown₁
    · dsimp only at hremove
      rcases hroll : s₁.blockchain.rollbackTo forged.uniqueId with err | v
      · rw [hroll] at hremove
        cases hremove
      · rw [hroll] at hremove
        obtain rfl := (Prod.mk.inj hremove).1
        obtain ⟨hsafe, hend⟩ := rollbackTo_at hreach₁.chained.sound hheightOf₁ hid₁
          hkeeps.height hroll
        have hkeeps₂ := hkeeps.rollbackTo hreach₁.chained (settled_reachable hreach₁) hroll
          (hQ₁.2 _ rfl) (Nat.le_of_eq hend.symm)
        rw [balanceReader_of_none rfl]
        refine balance_of_keeps hkeeps₂ (settled_reachable hs') (settled_reachable hreach₂)
          hfresh.nonempty (by omega) hat (hfound hreach₂ (hkeeps₂.block.trans hinfo)).2 ?_ _
        rw [LevelDBWriter.safeRollbackHeight_rollbackTo hroll]
        exact hsafe

end

end StoredUpdater

/-! ## 8. A reset that is rolled back

The third block cancels all leases, and no transaction of it does. The rollback below it
leaves what it wrote: the second block, liquid again, builds on a lease balance of nothing,
and the database, once the block is persisted, does not. -/

namespace Devnet

/-- The genesis block with a lease of Alice's to Bob. -/
def firstLeaseBlock : Block :=
  { genesisBlock with
    signature := bytes 64
      0x39899fab441904198a4c04d9081091081ecfa5dc0fd3684a7f56297bd11dbf9e58401a50a7788d955cca76dc45b42f41653af77f9d2d76ac2bf69312bae86081
    transactionData := genesisBlock.transactionData ++ [.lease lease] }

def firstLeaseBlockBytes : ByteStr :=
  bytes 399 0x010000015d3ef61160ffffffffffffffffffffffffffffffffffffffffffffffffffffffffffffffffffffffffffffffffffffffffffffffffffffffffffffffffffffffffffffffff000000280000000009299ff30000000000000000000000000000000000000000000000000000000000000000000000f6030000002b010000015d3ef611600154ea58e2539eb41410f8873ff020608b0c8325427feaaacd730011c37937e080000000002b010000015d3ef611600154aa259a33e350952c45254e402badc9b74c47e88d2cdd1ded0011c37937e0800000000093082e8b2883c27b391359d7d0c15d00815a6693290a38dd8eba341cc07ddaa8ed4d0154aa259a33e350952c45254e402badc9b74c47e88d2cdd1ded0000000005f5e10000000000000186a00000015d3ef6fbc07d16efb49b5e3fc430d57a79fd98c20a373904f018368882affa1a878f82147198cf8d63cfc5f70a1f3b9fd65de9c735a1640d01186c3167ba99106f1c1bed8818656ba6d7862cb11d995afe20bf8761edee05ec28aa29bfbcf31ebd19dede71

def secondBlock : Block :=
  { emptyBlock with
    header := { emptyBlock.header with reference := firstLeaseBlock.signature }
    signature := bytes 64
      0x925956c520d72d8063b3efd237ee60c03068f04a210227e3a5f2f3c0d173966008f0e8d17ccaab90ee1088ad09d69a59e3d4e2d959b67d653e4d0b3fef25598e }

def secondBlockBytes : ByteStr :=
  bytes 161 0x030000015d3ef6fbc039899fab441904198a4c04d9081091081ecfa5dc0fd3684a7f56297bd11dbf9e58401a50a7788d955cca76dc45b42f41653af77f9d2d76ac2bf69312bae86081000000280000000009299ff340328d507794ee8ca0f9169b6e221a1409677d18dc99c0d1674574ccf69aceb90000000400000000000000001885844ed84c86501cd2221627f1d16cd4c60530e5415e1bf6cab037b054f150

/-- An empty block, at the height of the reset. -/
def thirdBlock : Block :=
  { resetBlock with
    header := { resetBlock.header with reference := secondBlock.signature }
    signature := bytes 64
      0xa76d6470d5202d40218d7dd0bb0c67b1235b5106da0cdd1f8a214db3ece0c89e828c9d9350c2417b3eaeac3089cdc37c8e9427bd70cc371bb0b72fb8cb48c488 }

def thirdBlockBytes : ByteStr :=
  bytes 161 0x030000015d3ef7e620925956c520d72d8063b3efd237ee60c03068f04a210227e3a5f2f3c0d173966008f0e8d17ccaab90ee1088ad09d69a59e3d4e2d959b67d653e4d0b3fef25598e000000280000000009299ff3faa1c63cbeee360372abcb14ffbdcb21d7fc5037a4b833c914fbafc77919e07b0000000400000000000000001885844ed84c86501cd2221627f1d16cd4c60530e5415e1bf6cab037b054f150

def fourthBlock : Block where
  header :=
    { emptyBlock.header with
      timestamp := 1500000080000
      reference := thirdBlock.signature
      generationSignature :=
        bytes 32 0x62cd0132ac423e2b0a1946853a2e783ded2da3e3023739ef912775ae50810498 }
  signature := bytes 64
    0x5da4b562c6070effe669fd085ea66a25cab9bac924fc6d56e155210532e2cd1be28190e2b7252eaf8ef96f14129f1f4e3248d057ff199832eb9e56ed0940b48c
  transactionData := []

def fourthBlockBytes : ByteStr :=
  bytes 161 0x030000015d3ef8d080a76d6470d5202d40218d7dd0bb0c67b1235b5106da0cdd1f8a214db3ece0c89e828c9d9350c2417b3eaeac3089cdc37c8e9427bd70cc371bb0b72fb8cb48c488000000280000000009299ff362cd0132ac423e2b0a1946853a2e783ded2da3e3023739ef912775ae508104980000000400000000000000001885844ed84c86501cd2221627f1d16cd4c60530e5415e1bf6cab037b054f150

def stabilityAnswers : KnownAnswers :=
  leaseAnswers.and
    { signatures :=
        [⟨founder.publicKey, firstLeaseBlockBytes, firstLeaseBlock.signature⟩,
          ⟨miner.publicKey, secondBlockBytes, secondBlock.signature⟩,
          ⟨miner.publicKey, thirdBlockBytes, thirdBlock.signature⟩,
          ⟨miner.publicKey, fourthBlockBytes, fourthBlock.signature⟩]
      blocks :=
        [(firstLeaseBlock, firstLeaseBlockBytes), (secondBlock, secondBlockBytes),
          (thirdBlock, thirdBlockBytes), (fourthBlock, fourthBlockBytes)] }

end Devnet

section
open Devnet StoredUpdater

local instance stabilityCrypto : Crypto := stabilityAnswers.crypto
local instance stabilitySerializer : PBTransactionSerializer := pbTransactionSerializer
local instance stabilityBlocks : BlockSerializer := stabilityAnswers.blockSerializer
local instance stabilityRide : Ride := stabilityAnswers.ride

namespace Devnet

def stabilityStart : StoredUpdater := .start (.empty resetSettings dbSettings) true

/-- The node after blocks with fresh identifiers. -/
def runBlocks : StoredUpdater → List Block → Option StoredUpdater
  | s, [] => some s
  | s, block :: blocks =>
    if (s.persisted block).toOption.all (fun w => decide (Fresh w block.uniqueId)) then
      (s.afterBlock block).toOption.bind fun s' => runBlocks s' blocks
    else none

/-- The second block is liquid. -/
def secondLiquid : StoredUpdater :=
  (runBlocks stabilityStart [firstLeaseBlock, secondBlock]).getD stabilityStart

/-- The second block is persisted. -/
def secondPersisted : StoredUpdater := (runBlocks secondLiquid [thirdBlock]).getD stabilityStart

/-- The leases are reset. -/
def leasesReset : StoredUpdater :=
  (runBlocks secondPersisted [fourthBlock]).getD stabilityStart

def removed (s : StoredUpdater) (id : BlockId) : StoredUpdater := (s.removeAfter id).1

def resetRolledBack : StoredUpdater := removed leasesReset firstLeaseBlock.uniqueId

def secondAgain : StoredUpdater := (runBlocks resetRolledBack [secondBlock]).getD stabilityStart

def persistedAgain : StoredUpdater := (runBlocks secondAgain [thirdBlock]).getD stabilityStart

/-- Whether what the liquid block adds to the Waves of an account is in range. -/
def wavesInRange (s : StoredUpdater) (a : Address) (id : BlockId) : Bool :=
  s.ngState.all fun ng => (ng.diffFor id).toOption.all fun r =>
    decide (Long.InRange ((s.blockchain.balance a .Waves).toInt +
      ((ng.cancelExpiredLeases r.1).portfolios.of a).balance.toInt))

/-- Bob's generating balance at the second block. -/
def bobBalance (b : BalanceReader) : Validation Long :=
  GeneratingBalanceProvider.balance 1000 b bob.address secondBlock.uniqueId

end Devnet

theorem stability_run :
    ((runBlocks stabilityStart [firstLeaseBlock, secondBlock]).isSome ∧
        (runBlocks secondLiquid [thirdBlock]).isSome ∧
        (runBlocks secondPersisted [fourthBlock]).isSome ∧
        (runBlocks resetRolledBack [secondBlock]).isSome ∧
        (runBlocks secondAgain [thirdBlock]).isSome) ∧
      (wavesInRange secondLiquid bob.address secondBlock.uniqueId ∧
        wavesInRange secondAgain bob.address secondBlock.uniqueId) ∧
      (secondPersisted.blockchain.height = secondLiquid.blockchain.height + 1 ∧
        persistedAgain.blockchain.height = secondAgain.blockchain.height + 1) ∧
      (secondPersisted.blockchain.db.heightOf secondBlock.uniqueId =
          some secondPersisted.blockchain.height ∧
        (secondPersisted.removeAfter secondBlock.uniqueId).2.toOption.isSome) ∧
      (bobBalance secondAgain.balanceReader).toOption = some 5000000000000000 ∧
      (bobBalance persistedAgain.blockchain.balanceReader).toOption = some 5000000100000000 := by
  decide +kernel

theorem runBlocks_cons {s s' : StoredUpdater} {block : Block} {blocks : List Block}
    (h : runBlocks s (block :: blocks) = some s') :
    ∃ s₁, FreshIds s (.processBlock block) ∧ s.afterBlock block = .ok s₁ ∧
      runBlocks s₁ blocks = some s' := by
  unfold runBlocks at h
  split at h
  · rename_i hfresh
    obtain ⟨s₁, hs₁, hrest⟩ := Option.bind_eq_some_iff.mp h
    refine ⟨s₁, freshIds_processBlock hfresh, ?_, hrest⟩
    rcases hafter : s.afterBlock block with err | s₂
    · rw [hafter] at hs₁
      cases hs₁
    · rw [hafter] at hs₁
      exact congrArg Except.ok (Option.some.inj hs₁)
  · cases h

/-- The nodes of such a run. -/
theorem reachable_runBlocks {Q : StoredUpdater → Event → Prop} {settings : BlockchainSettings}
    (hQ : ∀ s block, FreshIds s (.processBlock block) → Q s (.processBlock block)) :
    ∀ (blocks : List Block) {s : StoredUpdater} {d : StoredUpdater},
      Reachable Q settings dbSettings s → (runBlocks s blocks).isSome →
      Reachable Q settings dbSettings ((runBlocks s blocks).getD d)
  | [], _, _, hs, _ => hs
  | block :: blocks, s, d, hs, hsome => by
    obtain ⟨s', hs'⟩ := Option.isSome_iff_exists.mp hsome
    obtain ⟨s₁, hfresh, hafter, hrest⟩ := runBlocks_cons hs'
    have hreach := reachable_runBlocks hQ blocks (d := d) (hs.afterBlock (hQ s block hfresh) hafter)
      (by rw [hrest]; rfl)
    rw [hrest] at hreach
    rw [hs']
    exact hreach

/-- The one block of such a run that ends higher is taken. -/
theorem runBlocks_taken {s s' d : StoredUpdater} {block : Block}
    (hrun : (runBlocks s [block]).getD d = s') (hsome : (runBlocks s [block]).isSome)
    (hheight : s'.blockchain.height = s.blockchain.height + 1) :
    FreshIds s (.processBlock block) ∧
      ∃ discarded, s.processBlock block = .ok (s', some discarded) := by
  obtain ⟨s₁, hs₁⟩ := Option.isSome_iff_exists.mp hsome
  rw [hs₁, Option.getD_some] at hrun
  rw [hrun] at hs₁
  obtain ⟨s₂, hfresh, hafter, hrest⟩ := runBlocks_cons hs₁
  cases hrest
  obtain ⟨⟨s₃, discarded⟩, hblock, hs₃⟩ := Validation.map_eq_ok.mp hafter
  dsimp only at hs₃
  rw [hs₃] at hblock
  refine ⟨hfresh, ?_⟩
  rcases discarded with _ | discarded
  · -- a block that is ignored adds no height
    rw [processBlock_ignored hblock] at hheight
    omega
  · exact ⟨discarded, hblock⟩

theorem wavesInRange_of {s : StoredUpdater} {a : Address} {id : BlockId}
    (h : wavesInRange s a id = true) : s.WavesInRange a id := by
  intro ng diff carry fee hng hdiff
  unfold wavesInRange at h
  rw [hng, Option.all_some, hdiff] at h
  exact of_decide_eq_true h

/-- A rollback to the last persisted block takes nothing back. -/
theorem balancesFollowed_removeAfter {s : StoredUpdater} {id : BlockId}
    (hs : s.blockchain.Settled) (hid : s.blockchain.db.heightOf id = some s.blockchain.height) :
    BalancesFollowed s (.removeAfter id) := by
  refine ⟨trivial, fun id' heq targetHeight hat a h hh hlt => ?_⟩
  cases heq
  rw [hid] at hat
  have hle := (hs.lease a).le h hh
  have hheight := Option.some.inj hat
  omega

/-- A removal that is made, and what it leaves. -/
theorem removeAfter_eq {s : StoredUpdater} {id : BlockId} {blocks : List Block}
    (h : (s.removeAfter id).2 = .ok blocks) :
    s.removeAfter id = ((s.removeAfter id).1, .ok blocks) := by
  rw [← h]

theorem reachable_removeAfter {Q : StoredUpdater → StoredUpdater.Event → Prop}
    {settings : BlockchainSettings} {s : StoredUpdater} {id : BlockId}
    (h : Reachable Q settings dbSettings s) (hQ : Q s (.removeAfter id)) :
    Reachable Q settings dbSettings (removed s id) :=
  .step h hQ rfl

/-- Bob's balance at the second block: persisted, and once the third block is removed. -/
theorem generating_balance_stable_second :
    bobBalance secondPersisted.blockchain.balanceReader = bobBalance secondLiquid.balanceReader ∧
      bobBalance (secondPersisted.removeAfter secondBlock.uniqueId).1.balanceReader =
        bobBalance secondLiquid.balanceReader := by
  obtain ⟨⟨hfirst, hthird, -⟩, ⟨hrange, -⟩, ⟨hheight, -⟩, ⟨hid, hremove⟩, -⟩ := stability_run
  have hnext : ∀ s block, FreshIds s (.processBlock block) →
      BalancesFollowed s (.processBlock block) := fun s block hfresh =>
    ⟨hfresh, fun _ heq => by cases heq⟩
  have hliquid : Reachable BalancesFollowed resetSettings dbSettings secondLiquid :=
    reachable_runBlocks hnext _ (.start true) hfirst
  have hpersisted : Reachable BalancesFollowed resetSettings dbSettings secondPersisted :=
    reachable_runBlocks hnext _ hliquid hthird
  have hrun : (runBlocks secondLiquid [thirdBlock]).getD stabilityStart = secondPersisted := rfl
  obtain ⟨hfresh, discarded, hblock⟩ := runBlocks_taken hrun hthird hheight
  have hwaves : secondLiquid.WavesInRange bob.address thirdBlock.header.reference :=
    wavesInRange_of hrange
  have hstable := generating_balance_stable hliquid hwaves (hnext _ _ hfresh) hblock hheight 1000
  have hreference : thirdBlock.header.reference = secondBlock.uniqueId := rfl
  rw [hreference] at hstable
  have hfollowed := balancesFollowed_removeAfter (settled_reachable hpersisted) hid
  refine ⟨hstable.1, ?_⟩
  rcases hresult : (secondPersisted.removeAfter secondBlock.uniqueId).2 with err | blocks
  · rw [hresult] at hremove
    cases hremove
  · exact hstable.2 _ _ blocks .refl hfollowed (removeAfter_eq hresult)

/-- At the second block that follows the rollback, the database counts the lease and the liquid
block does not. -/
theorem generating_balance_reset :
    ¬∀ (settings : BlockchainSettings) (dbSettings : DBSettings) (s s' : StoredUpdater)
      (a : Address) (block : Block) (discarded : List Transaction),
      Reachable FreshIds settings dbSettings s → s.WavesInRange a block.header.reference →
      FreshIds s (.processBlock block) → s.processBlock block = .ok (s', some discarded) →
      s'.blockchain.height = s.blockchain.height + 1 →
      ∀ generationBalanceDepthFrom50To1000AfterHeight : ℕ,
        GeneratingBalanceProvider.balance generationBalanceDepthFrom50To1000AfterHeight
            s'.blockchain.balanceReader a block.header.reference =
          GeneratingBalanceProvider.balance generationBalanceDepthFrom50To1000AfterHeight
            s.balanceReader a block.header.reference := by
  intro hclaim
  obtain ⟨⟨hfirst, hthird, hfourth, hsecond, hagain⟩, ⟨-, hrange⟩, ⟨-, hheight⟩, -, hbefore,
    hafter⟩ := stability_run
  have hnext : ∀ s block, FreshIds s (.processBlock block) → FreshIds s (.processBlock block) :=
    fun _ _ hfresh => hfresh
  have hliquid : Reachable FreshIds resetSettings dbSettings secondLiquid :=
    reachable_runBlocks hnext _ (.start true) hfirst
  have hpersisted : Reachable FreshIds resetSettings dbSettings secondPersisted :=
    reachable_runBlocks hnext _ hliquid hthird
  have hreset : Reachable FreshIds resetSettings dbSettings leasesReset :=
    reachable_runBlocks hnext _ hpersisted hfourth
  have hrolledBack : Reachable FreshIds resetSettings dbSettings resetRolledBack :=
    reachable_removeAfter hreset trivial
  have hsecondAgain : Reachable FreshIds resetSettings dbSettings secondAgain :=
    reachable_runBlocks hnext _ hrolledBack hsecond
  have hrun : (runBlocks secondAgain [thirdBlock]).getD stabilityStart = persistedAgain := rfl
  obtain ⟨hfresh, discarded, hblock⟩ := runBlocks_taken hrun hagain hheight
  have hwaves : secondAgain.WavesInRange bob.address thirdBlock.header.reference :=
    wavesInRange_of hrange
  have hclaimed := hclaim resetSettings dbSettings secondAgain persistedAgain bob.address
    thirdBlock discarded hsecondAgain hwaves hfresh hblock hheight 1000
  have hreference : thirdBlock.header.reference = secondBlock.uniqueId := rfl
  rw [hreference] at hclaimed
  have hsame : bobBalance persistedAgain.blockchain.balanceReader =
    bobBalance secondAgain.balanceReader := hclaimed
  rw [hsame, hbefore] at hafter
  exact absurd hafter (by decide)

end

end WavesNode
