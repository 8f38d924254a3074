/-
Finite maps as partial functions with a known finite domain.

A hash map of the modelled language is never read for its iteration order: it is
looked up, overlaid with another map, combined value by value, or summed over.
So the map is represented by its lookup function together with the finite set of
its keys, and two maps are equal exactly when they look up equal (`FiniteMap.ext`).

The one result here with arithmetic content is `total_combineWith`: a measure
that is additive on the keys both maps have is additive on the combined map. That
is the whole of what "the sum of the deltas of a combined diff" needs.
-/
import Mathlib.Algebra.BigOperators.Group.Finset.Basic
import Mathlib.Algebra.BigOperators.Ring.Finset
import Mathlib.Data.Finset.Fold
import Mathlib.Data.List.Lex
import Mathlib.Data.List.Sort
import Mathlib.Data.Multiset.Filter

set_option autoImplicit false

/-- A map with finitely many keys: the lookup function, the keys, and the fact
that the keys are exactly where the lookup answers. -/
structure FiniteMap (κ υ : Type) [DecidableEq κ] where
  get? : κ → Option υ
  dom : Finset κ
  mem_dom : ∀ k, k ∈ dom ↔ (get? k).isSome

namespace FiniteMap

variable {κ υ ω : Type} [DecidableEq κ]

/-! ## 1. Equality and lookup -/

/-- **Extensionality**: maps that look up equal are equal, the key sets being
determined by the lookups. -/
@[ext]
theorem ext {m n : FiniteMap κ υ} (h : ∀ k, m.get? k = n.get? k) : m = n := by
  obtain ⟨f, s, hs⟩ := m
  obtain ⟨g, t, ht⟩ := n
  have hfg : f = g := funext h
  subst hfg
  have hst : s = t := by
    ext k
    rw [hs, ht]
  subst hst
  rfl

/-- The value at a key, or a default. -/
def getOrElse (m : FiniteMap κ υ) (k : κ) (d : υ) : υ := (m.get? k).getD d

/-- Whether the key is bound. -/
def contains (m : FiniteMap κ υ) (k : κ) : Bool := (m.get? k).isSome

@[simp]
theorem contains_iff_mem_dom (m : FiniteMap κ υ) (k : κ) :
    m.contains k = true ↔ k ∈ m.dom := (m.mem_dom k).symm

theorem get?_eq_none_iff (m : FiniteMap κ υ) (k : κ) : m.get? k = none ↔ k ∉ m.dom := by
  rw [m.mem_dom]
  cases m.get? k <;> simp

theorem mem_dom_of_get? {m : FiniteMap κ υ} {k : κ} {v : υ} (h : m.get? k = some v) :
    k ∈ m.dom := by
  rw [m.mem_dom, h]
  rfl

/-! ## 2. Building maps -/

/-- The map without keys. -/
def empty : FiniteMap κ υ where
  get? _ := none
  dom := ∅
  mem_dom := by simp

instance : EmptyCollection (FiniteMap κ υ) := ⟨empty⟩

instance : Inhabited (FiniteMap κ υ) := ⟨empty⟩

@[simp] theorem get?_empty (k : κ) : (∅ : FiniteMap κ υ).get? k = none := rfl

@[simp] theorem dom_empty : (∅ : FiniteMap κ υ).dom = ∅ := rfl

/-- The map with one key. -/
def single (k : κ) (v : υ) : FiniteMap κ υ where
  get? k' := if k' = k then some v else none
  dom := {k}
  mem_dom k' := by
    by_cases h : k' = k <;> simp [h]

theorem get?_single (k k' : κ) (v : υ) :
    (single k v).get? k' = if k' = k then some v else none := rfl

@[simp] theorem get?_single_self (k : κ) (v : υ) : (single k v).get? k = some v := by
  simp [get?_single]

@[simp] theorem dom_single (k : κ) (v : υ) : (single k v).dom = {k} := rfl

/-! ## 3. Overlay and combination -/

/-- How two optional values combine: pointwise where both are there, and the one
that is there otherwise. -/
def combineOption (f : υ → υ → υ) : Option υ → Option υ → Option υ
  | some x, some y => some (f x y)
  | some x, none => some x
  | none, y => y

@[simp] theorem combineOption_none_left (f : υ → υ → υ) (y : Option υ) :
    combineOption f none y = y := rfl

@[simp] theorem combineOption_none_right (f : υ → υ → υ) (x : Option υ) :
    combineOption f x none = x := by
  cases x <;> rfl

@[simp] theorem combineOption_some_some (f : υ → υ → υ) (x y : υ) :
    combineOption f (some x) (some y) = some (f x y) := rfl

@[simp] theorem combineOption_isSome (f : υ → υ → υ) (x y : Option υ) :
    (combineOption f x y).isSome = (x.isSome || y.isSome) := by
  cases x <;> cases y <;> rfl

/-- Combine two maps key by key with `f`. -/
def combineWith (f : υ → υ → υ) (older newer : FiniteMap κ υ) : FiniteMap κ υ where
  get? k := combineOption f (older.get? k) (newer.get? k)
  dom := older.dom ∪ newer.dom
  mem_dom k := by
    rw [Finset.mem_union, older.mem_dom, newer.mem_dom, combineOption_isSome, Bool.or_eq_true]

@[simp] theorem get?_combineWith (f : υ → υ → υ) (older newer : FiniteMap κ υ) (k : κ) :
    (combineWith f older newer).get? k = combineOption f (older.get? k) (newer.get? k) := rfl

@[simp] theorem dom_combineWith (f : υ → υ → υ) (older newer : FiniteMap κ υ) :
    (combineWith f older newer).dom = older.dom ∪ newer.dom := rfl

/-- Overlay: the newer map wins where both have the key. -/
def union (older newer : FiniteMap κ υ) : FiniteMap κ υ := combineWith (fun _ y => y) older newer

instance : Append (FiniteMap κ υ) := ⟨union⟩

theorem get?_append (older newer : FiniteMap κ υ) (k : κ) :
    (older ++ newer).get? k = (newer.get? k).or (older.get? k) := by
  change combineOption _ (older.get? k) (newer.get? k) = _
  cases older.get? k <;> cases newer.get? k <;> rfl

@[simp] theorem dom_append (older newer : FiniteMap κ υ) :
    (older ++ newer).dom = older.dom ∪ newer.dom := rfl

/-- Bind one key, replacing what it had. -/
def insert (m : FiniteMap κ υ) (k : κ) (v : υ) : FiniteMap κ υ := m ++ single k v

theorem get?_insert (m : FiniteMap κ υ) (k k' : κ) (v : υ) :
    (m.insert k v).get? k' = if k' = k then some v else m.get? k' := by
  rw [insert, get?_append, get?_single]
  split <;> simp

/-- The map of a list of bindings, a later one replacing an earlier one. -/
def ofList (l : List (κ × υ)) : FiniteMap κ υ := l.foldl (fun m kv => m.insert kv.1 kv.2) ∅

theorem get?_ofList_pair (k₁ k₂ k : κ) (v₁ v₂ : υ) :
    (ofList [(k₁, v₁), (k₂, v₂)]).get? k =
      if k = k₂ then some v₂ else if k = k₁ then some v₁ else none := by
  simp only [ofList, List.foldl_cons, List.foldl_nil, get?_insert, get?_empty]

/-- A key of a list of bindings is bound to one of the values it has there. -/
theorem exists_get?_ofList {l : List (κ × υ)} {k : κ} (h : k ∈ l.map Prod.fst) :
    ∃ v, (k, v) ∈ l ∧ (ofList l).get? k = some v := by
  -- the last binding of the list decides
  induction l using List.reverseRecOn with
  | nil => exact absurd h List.not_mem_nil
  | append_singleton rest e ih =>
    have hlast : (ofList (rest ++ [e])).get? k =
        if k = e.1 then some e.2 else (ofList rest).get? k := by
      rw [ofList, List.foldl_append, List.foldl_cons, List.foldl_nil, get?_insert]
      rfl
    by_cases hk : k = e.1
    · refine ⟨e.2, ?_, by rw [hlast, if_pos hk]⟩
      rw [hk]
      exact List.mem_append_right _ List.mem_cons_self
    · rw [List.map_append, List.mem_append] at h
      have hrest : k ∈ rest.map Prod.fst := by
        rcases h with h | h
        · exact h
        · rw [List.map_singleton, List.mem_singleton] at h
          exact absurd h hk
      obtain ⟨v, hv, hget⟩ := ih hrest
      exact ⟨v, List.mem_append_left _ hv, by rw [hlast, if_neg hk, hget]⟩

theorem mem_of_get?_ofList {l : List (κ × υ)} {k : κ} {v : υ} (h : (ofList l).get? k = some v) :
    (k, v) ∈ l := by
  induction l using List.reverseRecOn with
  | nil => cases h
  | append_singleton rest e ih =>
    rw [ofList, List.foldl_append, List.foldl_cons, List.foldl_nil, get?_insert] at h
    by_cases hk : k = e.1
    · rw [if_pos hk] at h
      refine List.mem_append_right _ (List.mem_singleton.mpr ?_)
      exact Prod.ext hk (Option.some.inj h).symm
    · rw [if_neg hk] at h
      exact List.mem_append_left _ (ih h)

/-! ## 4. Mapping and filtering -/

/-- Keep and transform the bindings on which `f` answers. -/
def filterMap (f : κ → υ → Option ω) (m : FiniteMap κ υ) : FiniteMap κ ω where
  get? k := (m.get? k).bind (f k)
  dom := m.dom.filter fun k => ((m.get? k).bind (f k)).isSome = true
  mem_dom k := by
    rw [Finset.mem_filter, m.mem_dom]
    constructor
    · exact fun h => h.2
    · intro h
      refine ⟨?_, h⟩
      cases hk : m.get? k with
      | none => rw [hk] at h; exact absurd h (by simp)
      | some v => rfl

@[simp] theorem get?_filterMap (f : κ → υ → Option ω) (m : FiniteMap κ υ) (k : κ) :
    (filterMap f m).get? k = (m.get? k).bind (f k) := rfl

/-- Transform every value. -/
def mapVal (f : υ → ω) (m : FiniteMap κ υ) : FiniteMap κ ω where
  get? k := (m.get? k).map f
  dom := m.dom
  mem_dom k := by rw [m.mem_dom, Option.isSome_map]

@[simp] theorem get?_mapVal (f : υ → ω) (m : FiniteMap κ υ) (k : κ) :
    (mapVal f m).get? k = (m.get? k).map f := rfl

@[simp] theorem dom_mapVal (f : υ → ω) (m : FiniteMap κ υ) : (mapVal f m).dom = m.dom := rfl

/-- Keep the bindings that satisfy `p`. -/
def filter (p : κ → υ → Bool) (m : FiniteMap κ υ) : FiniteMap κ υ :=
  filterMap (fun k v => if p k v then some v else none) m

theorem get?_filter (p : κ → υ → Bool) (m : FiniteMap κ υ) (k : κ) :
    (filter p m).get? k = (m.get? k).filter (p k) := by
  rw [filter, get?_filterMap]
  cases m.get? k <;> rfl

/-- The map without a key. -/
def erase (m : FiniteMap κ υ) (k : κ) : FiniteMap κ υ := m.filter fun k' _ => k' ≠ k

theorem get?_erase (m : FiniteMap κ υ) (k k' : κ) :
    (m.erase k).get? k' = if k' = k then none else m.get? k' := by
  rw [erase, get?_filter]
  by_cases hk : k' = k
  · rw [if_pos hk]
    cases m.get? k' with
    | none => rfl
    | some v => simp [hk]
  · rw [if_neg hk]
    cases m.get? k' with
    | none => rfl
    | some v => simp [hk]

/-- The map that sends every element of a finite set through `f`. -/
def ofFinset (s : Finset κ) (f : κ → υ) : FiniteMap κ υ where
  get? k := if k ∈ s then some (f k) else none
  dom := s
  mem_dom k := by
    by_cases h : k ∈ s <;> simp [h]

theorem get?_ofFinset (s : Finset κ) (f : κ → υ) (k : κ) :
    (ofFinset s f).get? k = if k ∈ s then some (f k) else none := rfl

@[simp] theorem dom_ofFinset (s : Finset κ) (f : κ → υ) : (ofFinset s f).dom = s := rfl

/-- The values of a map on which `f` answers, with their multiplicity. -/
def collect (f : κ → υ → Option ω) (m : FiniteMap κ υ) : Multiset ω :=
  m.dom.val.filterMap fun k => (m.get? k).bind (f k)

/-- The values of a map, with their multiplicity. -/
def values (m : FiniteMap κ υ) : Multiset υ := m.collect fun _ v => some v

/-! ## 5. The monoid of combination -/

@[simp] theorem combineWith_empty_left (f : υ → υ → υ) (m : FiniteMap κ υ) :
    combineWith f ∅ m = m := by
  ext k : 1
  simp

@[simp] theorem combineWith_empty_right (f : υ → υ → υ) (m : FiniteMap κ υ) :
    combineWith f m ∅ = m := by
  ext k : 1
  simp

/-- Combination is associative where the values' combination is; only the keys
that all three maps bind need it. -/
theorem combineWith_assoc_of (f : υ → υ → υ) (a b c : FiniteMap κ υ)
    (h : ∀ k x y z, a.get? k = some x → b.get? k = some y → c.get? k = some z →
      f (f x y) z = f x (f y z)) :
    combineWith f (combineWith f a b) c = combineWith f a (combineWith f b c) := by
  ext k : 1
  simp only [get?_combineWith]
  cases ha : a.get? k with
  | none => simp
  | some x =>
    cases hb : b.get? k with
    | none => simp
    | some y =>
      cases hc : c.get? k with
      | none => simp
      | some z => simp [h k x y z ha hb hc]

theorem append_assoc (a b c : FiniteMap κ υ) : a ++ b ++ c = a ++ (b ++ c) :=
  combineWith_assoc_of _ a b c fun _ _ _ _ _ _ _ => rfl

@[simp] theorem empty_append (m : FiniteMap κ υ) : (∅ : FiniteMap κ υ) ++ m = m :=
  combineWith_empty_left _ m

@[simp] theorem append_empty (m : FiniteMap κ υ) : m ++ (∅ : FiniteMap κ υ) = m :=
  combineWith_empty_right _ m

/-! ## 6. Totals -/

variable {β : Type} [AddCommMonoid β]

/-- The sum of a measure over all bindings. -/
def total (φ : κ → υ → β) (m : FiniteMap κ υ) : β :=
  ∑ k ∈ m.dom, (m.get? k).elim 0 (φ k)

@[simp] theorem total_empty (φ : κ → υ → β) : total φ (∅ : FiniteMap κ υ) = 0 := rfl

@[simp] theorem total_single (φ : κ → υ → β) (k : κ) (v : υ) :
    total φ (single k v) = φ k v := by
  simp [total]

/-- The sum may run over any larger set of keys: the others contribute nothing. -/
theorem total_eq_sum_of_subset (φ : κ → υ → β) (m : FiniteMap κ υ) (s : Finset κ)
    (h : m.dom ⊆ s) : total φ m = ∑ k ∈ s, (m.get? k).elim 0 (φ k) := by
  refine Finset.sum_subset h ?_
  intro k _ hk
  rw [(m.get?_eq_none_iff k).mpr hk]
  rfl

/-- **The total of a combination.** If the measure is additive at every key both
maps bind, the total of the combination is the sum of the totals. -/
theorem total_combineWith (φ : κ → υ → β) (f : υ → υ → υ) (a b : FiniteMap κ υ)
    (h : ∀ k x y, a.get? k = some x → b.get? k = some y → φ k (f x y) = φ k x + φ k y) :
    total φ (combineWith f a b) = total φ a + total φ b := by
  rw [total_eq_sum_of_subset φ a (a.dom ∪ b.dom) Finset.subset_union_left,
    total_eq_sum_of_subset φ b (a.dom ∪ b.dom) Finset.subset_union_right,
    ← Finset.sum_add_distrib]
  refine Finset.sum_congr rfl ?_
  intro k _
  rw [get?_combineWith]
  cases ha : a.get? k with
  | none => simp
  | some x =>
    cases hb : b.get? k with
    | none => simp
    | some y => simpa using h k x y ha hb

/-- Totals agree when the measures agree on the bindings. -/
theorem total_congr (φ ψ : κ → υ → β) (m : FiniteMap κ υ)
    (h : ∀ k v, m.get? k = some v → φ k v = ψ k v) : total φ m = total ψ m := by
  refine Finset.sum_congr rfl ?_
  intro k _
  cases hk : m.get? k with
  | none => rfl
  | some v => exact h k v hk

/-! ## 7. Iteration

A fold over a map needs an order of its keys; here it is the ascending one. -/

section
variable [PartialOrder κ] [DecidableLE κ] [Std.Total (· ≤ · : κ → κ → Prop)]

omit [DecidableEq κ] in
/-- The elements of a finite set in ascending order. -/
def ascending (s : Finset κ) : List κ :=
  Quotient.liftOn s.val (List.insertionSort (· ≤ ·)) fun a b h =>
    List.Perm.eq_of_pairwise' (List.pairwise_insertionSort _ a) (List.pairwise_insertionSort _ b)
      ((List.perm_insertionSort _ a).trans (h.trans (List.perm_insertionSort _ b).symm))

omit [DecidableEq κ] in
@[simp] theorem mem_ascending {s : Finset κ} {k : κ} : k ∈ ascending s ↔ k ∈ s := by
  obtain ⟨⟨l⟩, hl⟩ := s
  exact List.mem_insertionSort _

omit [DecidableEq κ] in
theorem nodup_ascending (s : Finset κ) : (ascending s).Nodup := by
  obtain ⟨⟨l⟩, hl⟩ := s
  exact (List.perm_insertionSort _ l).nodup_iff.mpr hl

omit [DecidableEq κ] in
theorem pairwise_ascending (s : Finset κ) : (ascending s).Pairwise (· ≤ ·) := by
  obtain ⟨⟨l⟩, hl⟩ := s
  exact List.pairwise_insertionSort _ l

/-- The bindings of a map, by ascending keys. -/
def toList (m : FiniteMap κ υ) : List (κ × υ) :=
  (ascending m.dom).filterMap fun k => (m.get? k).map (k, ·)

@[simp] theorem toList_empty : toList (∅ : FiniteMap κ υ) = [] := rfl

@[simp] theorem mem_toList {m : FiniteMap κ υ} {kv : κ × υ} :
    kv ∈ m.toList ↔ m.get? kv.1 = some kv.2 := by
  obtain ⟨k, v⟩ := kv
  simp only [toList, List.mem_filterMap, mem_ascending, Option.map_eq_some_iff, Prod.mk.injEq]
  constructor
  · rintro ⟨_, -, _, hv, rfl, rfl⟩
    exact hv
  · intro hv
    exact ⟨k, mem_dom_of_get? hv, v, hv, rfl, rfl⟩

/-- Each key stands once in the list. -/
theorem pairwise_toList (m : FiniteMap κ υ) : m.toList.Pairwise fun e e' => e.1 ≠ e'.1 := by
  rw [toList, List.pairwise_filterMap]
  refine (nodup_ascending m.dom).imp ?_
  intro k k' hne kv hkv kv' hkv'
  obtain ⟨v, -, rfl⟩ := Option.map_eq_some_iff.mp hkv
  obtain ⟨v', -, rfl⟩ := Option.map_eq_some_iff.mp hkv'
  exact hne

/-- The first binding of a map is that of its least key. -/
theorem head?_toList {m : FiniteMap κ υ} {kv : κ × υ} (h : m.toList.head? = some kv) :
    m.get? kv.1 = some kv.2 ∧ ∀ k v, m.get? k = some v → kv.1 ≤ k := by
  have hsorted : m.toList.Pairwise (·.1 ≤ ·.1) := by
    rw [toList, List.pairwise_filterMap]
    refine (pairwise_ascending m.dom).imp ?_
    intro k k' hle kv hkv kv' hkv'
    obtain ⟨v, -, rfl⟩ := Option.map_eq_some_iff.mp hkv
    obtain ⟨v', -, rfl⟩ := Option.map_eq_some_iff.mp hkv'
    exact hle
  refine ⟨mem_toList.mp (List.mem_of_head? h), ?_⟩
  intro k v hk
  obtain ⟨rest, hl⟩ := List.head?_eq_some_iff.mp h
  have hmem : (k, v) ∈ m.toList := mem_toList.mpr hk
  rw [hl, List.mem_cons] at hmem
  rcases hmem with rfl | hmem
  · exact le_refl _
  · rw [hl, List.pairwise_cons] at hsorted
    exact hsorted.1 _ hmem

end

end FiniteMap
