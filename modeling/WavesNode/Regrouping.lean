/-
Lists grouped by class, and maps written entry by entry.

`regroup` lists the elements of one class after another, each class in the order it had:
what is left of a list that was kept as a map from classes to lists. `overwrite` writes the
elements of a list into a map, under their keys, in turn, so that the last element of a key
is the one that stays. The two do not commute: the map of a regrouped list is the map of the
list exactly when no key's last element is of a class that is listed before another one of
that key's (`overwrite_regroup_eq_iff`), and it is the map of the list whatever the order of
the classes exactly when every key has elements of one class only
(`lastInOrder_forall_iff`).
-/
import WavesNode.FiniteMap

set_option autoImplicit false

namespace WavesNode

variable {α κ γ : Type} [DecidableEq κ] [DecidableEq γ]

/-! ## 1. Regrouping -/

section
omit [DecidableEq κ]

/-- The elements of a list, class by class. -/
def regroup (cls : α → γ) (order : List γ) (l : List α) : List α :=
  order.flatMap fun g => l.filter fun a => cls a = g

variable {cls : α → γ} {order : List γ} {l : List α}

theorem mem_regroup {a : α} : a ∈ regroup cls order l ↔ a ∈ l ∧ cls a ∈ order := by
  unfold regroup
  rw [List.mem_flatMap]
  constructor
  · rintro ⟨g, hg, ha⟩
    rw [List.mem_filter] at ha
    have hclass : cls a = g := of_decide_eq_true ha.2
    exact ⟨ha.1, hclass ▸ hg⟩
  · rintro ⟨ha, hclass⟩
    exact ⟨cls a, hclass, List.mem_filter.mpr ⟨ha, decide_eq_true rfl⟩⟩

theorem filter_regroup (p : α → Bool) :
    (regroup cls order l).filter p = regroup cls order (l.filter p) := by
  unfold regroup
  rw [List.filter_flatMap]
  congr 1
  funext g
  rw [List.filter_filter, List.filter_filter]
  simp only [Bool.and_comm]

theorem regroup_append (first second : List γ) :
    regroup cls (first ++ second) l = regroup cls first l ++ regroup cls second l := by
  unfold regroup
  rw [List.flatMap_append]

theorem regroup_cons (g : γ) (rest : List γ) :
    regroup cls (g :: rest) l = (l.filter fun a => cls a = g) ++ regroup cls rest l := by
  unfold regroup
  rw [List.flatMap_cons]

theorem regroup_eq_nil_iff : regroup cls order l = [] ↔ ∀ a ∈ l, cls a ∉ order := by
  rw [List.eq_nil_iff_forall_not_mem]
  simp only [mem_regroup, not_and]

/-- Classes without elements may be left out of the order. -/
theorem regroup_filter {p : γ → Bool} (h : ∀ a ∈ l, p (cls a) = true) :
    regroup cls (order.filter p) l = regroup cls order l := by
  induction order with
  | nil => rfl
  | cons g rest ih =>
    rw [regroup_cons, ← ih, List.filter_cons]
    by_cases hg : p g = true
    · rw [if_pos hg, regroup_cons]
    · have hnone : l.filter (fun a => cls a = g) = [] := by
        rw [List.filter_eq_nil_iff]
        intro a ha hclass
        exact hg (of_decide_eq_true hclass ▸ h a ha)
      rw [if_neg hg, hnone, List.nil_append]

/-- The last element of a list is the last one of the regrouped list exactly when its class
is listed last among those of the elements. -/
theorem getLast?_regroup_eq_iff {a : α} (hlast : l.getLast? = some a) (hnodup : order.Nodup)
    (horder : ∀ b ∈ l, cls b ∈ order) :
    (regroup cls order l).getLast? = some a ↔
      ∀ b ∈ l, order.idxOf (cls b) ≤ order.idxOf (cls a) := by
  have ha : a ∈ l := List.mem_of_getLast? hlast
  obtain ⟨first, second, hsplit⟩ := List.append_of_mem (horder a ha)
  rw [hsplit] at hnodup
  obtain ⟨-, hsecond, hfirst⟩ := List.nodup_append.mp hnodup
  have hnotFirst : cls a ∉ first := fun hmem => hfirst _ hmem _ List.mem_cons_self rfl
  have hnotSecond : cls a ∉ second := (List.nodup_cons.mp hsecond).1
  have hidx : order.idxOf (cls a) = first.length := by
    rw [hsplit, List.idxOf_append_of_notMem hnotFirst, List.idxOf_cons_self, Nat.add_zero]
  -- the group of `a` ends with `a`
  have hgroup : (l.filter fun b => cls b = cls a).getLast? = some a := by
    obtain ⟨init, rfl⟩ := List.getLast?_eq_some_iff.mp hlast
    rw [List.filter_append, List.filter_singleton, decide_eq_true rfl, cond_true]
    exact List.getLast?_concat
  -- so `a` is last exactly when no class after its own has an element
  have hempty : (regroup cls order l).getLast? = some a ↔ regroup cls second l = [] := by
    rw [hsplit, regroup_append, regroup_cons, List.getLast?_append, List.getLast?_append, hgroup]
    cases hrest : (regroup cls second l).getLast? with
    | none => simp [List.getLast?_eq_none_iff.mp hrest]
    | some b =>
      have hmem := List.mem_of_getLast? hrest
      rw [Option.some_or, Option.some_or]
      constructor
      · intro hab
        rw [Option.some.injEq] at hab
        rw [hab, mem_regroup] at hmem
        exact absurd hmem.2 hnotSecond
      · intro hnil
        rw [hnil] at hmem
        exact absurd hmem List.not_mem_nil
  rw [hempty, regroup_eq_nil_iff]
  refine forall₂_congr fun b hb => ?_
  rw [hidx, hsplit]
  constructor
  · intro hnot
    by_cases hbFirst : cls b ∈ first
    · rw [List.idxOf_append_of_mem hbFirst]
      exact Nat.le_of_lt (List.idxOf_lt_length_of_mem hbFirst)
    · have hb' : cls b = cls a := by
        have hmem := horder b hb
        rw [hsplit] at hmem
        simpa [hbFirst, hnot] using hmem
      rw [hb', List.idxOf_append_of_notMem hnotFirst, List.idxOf_cons_self, Nat.add_zero]
  · intro hle hbSecond
    have hbFirst : cls b ∉ first := fun hmem =>
      hfirst _ hmem _ (List.mem_cons_of_mem _ hbSecond) rfl
    have hne : cls a ≠ cls b := fun heq => hnotSecond (heq ▸ hbSecond)
    rw [List.idxOf_append_of_notMem hbFirst, List.idxOf_cons_ne _ hne] at hle
    omega

end

/-! ## 2. Writing a list into a map -/

/-- The elements of a list, written under their keys in turn. -/
def overwrite (key : α → κ) (l : List α) : FiniteMap κ α :=
  l.foldl (fun m a => m ++ FiniteMap.single (key a) a) ∅

section
omit [DecidableEq γ]

theorem overwrite_append_singleton (key : α → κ) (l : List α) (a : α) :
    overwrite key (l ++ [a]) = overwrite key l ++ FiniteMap.single (key a) a := by
  unfold overwrite
  rw [List.foldl_append, List.foldl_cons, List.foldl_nil]

/-- The last element of a key stays. -/
theorem get?_overwrite (key : α → κ) (l : List α) (k : κ) :
    (overwrite key l).get? k = (l.filter fun a => key a = k).getLast? := by
  induction l using List.reverseRecOn with
  | nil => rfl
  | append_singleton l a ih =>
    rw [overwrite_append_singleton, FiniteMap.get?_append, ih, List.filter_append,
      List.getLast?_append, FiniteMap.get?_single]
    by_cases hk : k = key a
    · rw [if_pos hk, List.filter_singleton, hk, decide_eq_true rfl]
      rfl
    · rw [if_neg hk, List.filter_singleton, decide_eq_false (Ne.symm hk)]
      rfl

end

/-! ## 3. Writing a regrouped list -/

/-- No key's last element is of a class that is listed before the class of another element of
the key. -/
def LastInOrder (key : α → κ) (cls : α → γ) (order : List γ) (l : List α) : Prop :=
  ∀ before a after, l = before ++ a :: after → (∀ b ∈ after, key b ≠ key a) →
    ∀ b ∈ before, key b = key a → order.idxOf (cls b) ≤ order.idxOf (cls a)

variable {key : α → κ} {cls : α → γ} {order : List γ} {l : List α}

/-- **A regrouped list** writes the map of the list exactly when no key's last element is
moved before another one of the key's. -/
theorem overwrite_regroup_eq_iff (hnodup : order.Nodup) (horder : ∀ g, g ∈ order) :
    overwrite key (regroup cls order l) = overwrite key l ↔ LastInOrder key cls order l := by
  constructor
  · intro heq before a after hsplit hafter b hb hkey
    have hlast : (l.filter fun b => key b = key a).getLast? = some a := by
      have hnone : after.filter (fun b => key b = key a) = [] :=
        List.filter_eq_nil_iff.mpr fun b hb => by simpa using hafter b hb
      rw [hsplit, List.filter_append, List.filter_cons, if_pos (decide_eq_true rfl), hnone]
      exact List.getLast?_concat
    have hget : (overwrite key (regroup cls order l)).get? (key a) =
        (overwrite key l).get? (key a) := by rw [heq]
    rw [get?_overwrite, get?_overwrite, filter_regroup, hlast] at hget
    refine (getLast?_regroup_eq_iff hlast hnodup fun b _ => horder _).mp hget b ?_
    rw [List.mem_filter, hsplit]
    exact ⟨List.mem_append_left _ hb, decide_eq_true hkey⟩
  · intro hlast
    ext k : 1
    rw [get?_overwrite, get?_overwrite, filter_regroup]
    cases hk : (l.filter fun a => key a = k).getLast? with
    | none =>
      rw [List.getLast?_eq_none_iff] at hk
      rw [hk, List.getLast?_eq_none_iff, regroup_eq_nil_iff]
      exact fun a ha => absurd ha List.not_mem_nil
    | some a =>
      refine (getLast?_regroup_eq_iff hk hnodup fun b _ => horder _).mpr ?_
      -- the last element of the key is an element of the list, and no later one is of the key
      obtain ⟨init, hinit⟩ := List.getLast?_eq_some_iff.mp hk
      obtain ⟨before, rest, hsplit, hbefore, hrest⟩ := List.filter_eq_append_iff.mp hinit
      obtain ⟨skipped, after, hsplit', hskipped, hka, hafter⟩ :=
        List.filter_eq_cons_iff.mp hrest
      have hkey : key a = k := of_decide_eq_true hka
      have hl : l = (before ++ skipped) ++ a :: after := by
        rw [hsplit, hsplit', List.append_assoc]
      intro b hb
      rw [List.mem_filter] at hb
      have hkeyb : key b = k := of_decide_eq_true hb.2
      have hnoAfter : ∀ b ∈ after, key b ≠ key a := by
        intro b' hb' heq
        have hno := List.filter_eq_nil_iff.mp hafter b' hb'
        exact hno (decide_eq_true (heq.trans hkey))
      have hmem := hb.1
      rw [hl, List.mem_append, List.mem_cons] at hmem
      rcases hmem with hmem | rfl | hmem
      · exact hlast _ a after hl hnoAfter b hmem (hkeyb.trans hkey.symm)
      · exact Nat.le_refl _
      · exact absurd (hkeyb.trans hkey.symm) (hnoAfter b hmem)

/-- Every key has elements of one class only. -/
def OneClassPerKey (key : α → κ) (cls : α → γ) (l : List α) : Prop :=
  ∀ a ∈ l, ∀ b ∈ l, key a = key b → cls a = cls b

/-- **Whatever the order of the classes**, a list can be regrouped exactly when every key has
elements of one class only. -/
theorem lastInOrder_forall_iff (hnodup : order.Nodup) (horder : ∀ g, g ∈ order) :
    (∀ order', order'.Perm order → LastInOrder key cls order' l) ↔ OneClassPerKey key cls l := by
  constructor
  · intro hall a ha b hb hkey
    -- the last element of the key has the class of every other one: list its class first
    have hlast : ∃ last, (l.filter fun c => key c = key a).getLast? = some last := by
      rw [← Option.isSome_iff_exists, List.getLast?_isSome]
      exact List.ne_nil_of_mem (List.mem_filter.mpr ⟨ha, decide_eq_true rfl⟩)
    obtain ⟨last, hlast⟩ := hlast
    have hsame : ∀ c ∈ l, key c = key a → cls c = cls last := by
      intro c hc hkeyc
      by_contra hne
      have hperm : (cls last :: order.erase (cls last)).Perm order :=
        (List.perm_cons_erase (horder _)).symm
      have hin := (overwrite_regroup_eq_iff (hperm.nodup_iff.mpr hnodup)
        fun g => hperm.mem_iff.mpr (horder g)).mpr (hall _ hperm)
      have hget : (overwrite key (regroup cls (cls last :: order.erase (cls last)) l)).get?
          (key a) = (overwrite key l).get? (key a) := by rw [hin]
      rw [get?_overwrite, get?_overwrite, filter_regroup, hlast] at hget
      have hle := (getLast?_regroup_eq_iff hlast (hperm.nodup_iff.mpr hnodup)
        fun g _ => hperm.mem_iff.mpr (horder _)).mp hget c
        (List.mem_filter.mpr ⟨hc, decide_eq_true hkeyc⟩)
      rw [List.idxOf_cons_self, List.idxOf_cons_ne _ (Ne.symm hne)] at hle
      omega
    rw [hsame a ha rfl, hsame b hb hkey.symm]
  · intro hone order' hperm before a after hsplit _ b hb hkey
    have hclass : cls b = cls a := hone b
      (by rw [hsplit]; exact List.mem_append_left _ hb) a
      (by rw [hsplit]; exact List.mem_append_right _ List.mem_cons_self) hkey
    rw [hclass]

end WavesNode
