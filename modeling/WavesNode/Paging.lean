/-
Listings that are read page by page.

A listing answers, from the beginning or from a cursor, a list of items; a reader takes the
first few of them, and asks again from the cursor of the last one it was given, until it is
given none (`Paged`). Here: such a reading is unique (`Paged.unique`), and it gives a list
from beginning to end if from every item on the listing goes on with some of what follows,
and with nothing only at the end (`Continues.paged`).

`after` is how a listing is cut at a cursor, and `Traversal` an order in which a set is gone
through.
-/
import Mathlib.Data.List.Nodup
import Mathlib.Data.List.TakeWhile
import Mathlib.Data.Finset.Basic

set_option autoImplicit false

/-! ## 1. Orders -/

/-- An order in which a set is gone through, each element once. -/
structure Traversal {α : Type} (s : Finset α) where
  list : List α
  nodup : list.Nodup
  mem_iff : ∀ x, x ∈ list ↔ x ∈ s

namespace Paging

/-! ## 2. Lists cut at a cursor -/

section

variable {α κ : Type} [DecidableEq κ] {cursor : α → κ}

/-- What follows the item of a cursor; nothing where there is no such item. -/
def after (cursor : α → κ) (l : List α) (k : κ) : List α :=
  (l.dropWhile fun x => cursor x ≠ k).drop 1

theorem after_append {l l' : List α} {x : α} (h : cursor x ∉ l.map cursor) :
    after cursor (l ++ x :: l') (cursor x) = l' := by
  have hskip : ∀ y ∈ l, decide (cursor y ≠ cursor x) = true := by
    intro y hy
    apply decide_eq_true
    intro heq
    apply h
    rw [← heq]
    exact List.mem_map_of_mem hy
  rw [after, List.dropWhile_append_of_pos hskip, List.dropWhile_cons_of_neg (by simp)]
  rfl

theorem after_eq_nil {l : List α} {k : κ} (h : k ∉ l.map cursor) : after cursor l k = [] := by
  have hskip : l.dropWhile (fun x => cursor x ≠ k) = [] := by
    rw [List.dropWhile_eq_nil_iff]
    intro y hy
    apply decide_eq_true
    rintro rfl
    exact h (List.mem_map_of_mem hy)
  rw [after, hskip]
  rfl

omit [DecidableEq κ] in
/-- What is found by cursors has the cursors that something is found by. -/
theorem map_filterMap {f : κ → Option α} (hf : ∀ k x, f k = some x → cursor x = k) (l : List κ) :
    (l.filterMap f).map cursor = l.filter fun k => (f k).isSome := by
  induction l with
  | nil => rfl
  | cons k l ih =>
    cases hk : f k with
    | none => rw [List.filterMap_cons_none hk, ih, List.filter_cons_of_neg (by simp [hk])]
    | some x =>
      rw [List.filterMap_cons_some hk, List.map_cons, ih, hf k x hk,
        List.filter_cons_of_pos (by simp [hk])]

omit [DecidableEq κ] in
/-- What is found by two lists of cursors is the same if the cursors that something is found by
are. -/
theorem filterMap_eq_iff {f : κ → Option α} (hf : ∀ k x, f k = some x → cursor x = k)
    {l l' : List κ} :
    l.filterMap f = l'.filterMap f ↔
      l.filter (fun k => (f k).isSome) = l'.filter fun k => (f k).isSome := by
  constructor
  · intro h
    rw [← map_filterMap hf, h, map_filterMap hf]
  · intro h
    have hkept (l : List κ) : (l.filter fun k => (f k).isSome).filterMap f = l.filterMap f := by
      rw [List.filterMap_filter]
      refine List.filterMap_congr fun k _ => ?_
      cases f k <;> rfl
    rw [← hkept l, h, hkept]

/-- What is kept of what follows is what follows in what is kept. -/
theorem filterMap_after {β : Type} {key : β → κ} {f : β → Option α}
    (hf : ∀ y x, f y = some x → cursor x = key y) {l : List β} (hl : (l.map key).Nodup)
    {done rest : List α} {x : α} (h : l.filterMap f = done ++ x :: rest) :
    (after key l (cursor x)).filterMap f = rest := by
  obtain ⟨l₁, l₂, rfl, -, hl₂⟩ := List.filterMap_eq_append_iff.mp h
  obtain ⟨skipped, y, l₃, rfl, -, hy, rfl⟩ := List.filterMap_eq_cons_iff.mp hl₂
  rw [← List.append_assoc] at hl ⊢
  rw [hf y x hy, after_append]
  intro hmem
  rw [List.map_append, List.map_cons, List.nodup_append] at hl
  exact hl.2.2 _ hmem _ List.mem_cons_self rfl

theorem after_suffix (cursor : α → κ) (l : List α) (k : κ) : after cursor l k <:+ l :=
  (List.drop_suffix _ _).trans (List.dropWhile_suffix _)

end

/-! ## 3. Reading page by page -/

section

variable {α κ : Type} {cursor : α → κ} {list : Option κ → List α} {n : ℕ}

/-- The pages of a size from a cursor on, one after another, up to the first empty one. -/
inductive Paged (cursor : α → κ) (list : Option κ → List α) (n : ℕ) : Option κ → List α → Prop
  | done {k : Option κ} : (list k).take n = [] → Paged cursor list n k []
  | page {k : Option κ} {last : α} {rest : List α} :
    ((list k).take n).getLast? = some last → Paged cursor list n (some (cursor last)) rest →
      Paged cursor list n k ((list k).take n ++ rest)

/-- **A reading gives one list.** -/
theorem Paged.unique {k : Option κ} {items items' : List α} (h : Paged cursor list n k items)
    (h' : Paged cursor list n k items') : items = items' := by
  induction h generalizing items' with
  | done hempty =>
    cases h' with
    | done => rfl
    | page hlast =>
      rw [hempty] at hlast
      cases hlast
  | page hlast _ ih =>
    cases h' with
    | done hempty =>
      rw [hempty] at hlast
      cases hlast
    | page hlast' hrest' =>
      rw [hlast] at hlast'
      cases hlast'
      rw [ih hrest']

/-- What holds of every item that a good cursor leads to, and makes its cursor good, holds of
everything that is read. -/
theorem Paged.forall_mem {C : Option κ → Prop} {P : α → Prop}
    (hC : ∀ k, C k → ∀ x ∈ list k, P x ∧ C (some (cursor x))) {k : Option κ} {items : List α}
    (h : Paged cursor list n k items) (hk : C k) : ∀ x ∈ items, P x := by
  induction h with
  | done => exact fun x hx => absurd hx List.not_mem_nil
  | page hlast _ ih =>
    intro x hx
    rcases List.mem_append.mp hx with hpage | hrest
    · exact (hC _ hk x (List.mem_of_mem_take hpage)).1
    · have hmem := List.mem_of_mem_take (List.mem_of_getLast? hlast)
      exact ih (hC _ hk _ hmem).2 x hrest

/-- The first page of a reading is a page of the listing. -/
theorem Paged.first {k : Option κ} {items : List α} (h : Paged cursor list n k items) :
    (list k).take n <+: items := by
  cases h with
  | done hempty => rw [hempty]
  | page => exact List.prefix_append _ _

/-- Pages of the right size make any item of a listing the last one of its first page. -/
theorem Paged.after_item {k : Option κ} {done rest items : List α} {x : α}
    (hlist : list k = done ++ x :: rest)
    (h : Paged cursor list (done.length + 1) k items) :
    ∃ later, items = done ++ [x] ++ later ∧
      Paged cursor list (done.length + 1) (some (cursor x)) later := by
  have hpage : (list k).take (done.length + 1) = done ++ [x] := by
    rw [hlist, List.append_cons]
    exact List.take_left' (by rw [List.length_append, List.length_singleton])
  cases h with
  | done hempty =>
    rw [hpage] at hempty
    exact absurd hempty (List.append_ne_nil_of_right_ne_nil _ (List.cons_ne_nil _ _))
  | page hlast hrest =>
    rw [hpage, List.getLast?_concat] at hlast
    cases hlast
    exact ⟨_, by rw [hpage], hrest⟩

/-- From every item on, the listing goes on with some of what follows it, and with nothing
only after the last. -/
structure Continues (cursor : α → κ) (list : Option κ → List α) (items : List α) : Prop where
  first : list none = items
  next : ∀ done x rest, items = done ++ x :: rest →
    list (some (cursor x)) <+: rest ∧ (list (some (cursor x)) = [] → rest = [])

/-- **A listing that continues is read to the end**, in pages of any size. -/
theorem Continues.paged {items : List α} (h : Continues cursor list items) (hn : 0 < n) :
    Paged cursor list n none items := by
  have hread : ∀ (m : ℕ) (k : Option κ) (done rest : List α), rest.length ≤ m →
      items = done ++ rest → list k <+: rest → (list k = [] → rest = []) →
      Paged cursor list n k rest := by
    intro m
    induction m with
    | zero =>
      intro k done rest hm _ hprefix _
      obtain rfl : rest = [] := List.length_eq_zero_iff.mp (by omega)
      refine .done ?_
      rw [List.prefix_nil.mp hprefix]
      exact List.take_nil
    | succ m ih =>
      intro k done rest hm hitems hprefix hend
      by_cases hempty : list k = []
      · rw [hend hempty]
        refine .done ?_
        rw [hempty]
        exact List.take_nil
      · -- the page is not empty: what is left after it is shorter
        have hpage : (list k).take n ≠ [] := by
          rw [Ne, List.take_eq_nil_iff]
          rintro (h0 | h0)
          · omega
          · exact hempty h0
        obtain ⟨last, hlast⟩ := Option.ne_none_iff_exists'.mp
          (mt List.getLast?_eq_none_iff.mp hpage)
        obtain ⟨rest', hrest⟩ := (List.take_prefix n (list k)).trans hprefix
        obtain ⟨front, hfront⟩ := List.getLast?_eq_some_iff.mp hlast
        have hcut : items = (done ++ front) ++ last :: rest' := by
          rw [hitems, ← hrest, hfront]
          simp
        obtain ⟨hnext, hnextEnd⟩ := h.next _ last rest' hcut
        have hshorter : rest'.length ≤ m := by
          have hlength := congrArg List.length hrest
          rw [hfront] at hlength
          simp only [List.length_append, List.length_singleton] at hlength
          omega
        rw [← hrest]
        refine .page hlast (ih _ ((done ++ front) ++ [last]) rest' hshorter ?_ hnext hnextEnd)
        rw [hcut]
        simp
  exact hread items.length none [] items le_rfl rfl (by rw [h.first]) fun hnil => by
    rw [← h.first, hnil]

/-- Where a listing continues, what is read in pages of every size is the listing. -/
theorem Continues.paged_iff {items items' : List α} (h : Continues cursor list items) :
    (∀ n, 0 < n → Paged cursor list n none items') ↔ items' = items := by
  constructor
  · intro hread
    exact (hread 1 Nat.one_pos).unique (h.paged Nat.one_pos)
  · rintro rfl n hn
    exact h.paged hn

end

end Paging
