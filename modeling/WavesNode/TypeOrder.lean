/-
The order of the types.

`Wider` is the order that the comparison of two types decides: nothing is below every type,
a type that is not nothing is above those whose members it has, and a list is above a list
of something narrower. It is reflexive, and the common type of two types is above both.

Lists are where it stops being an order with least upper bounds. Between two lists a list is
compared by what it holds, but as a member of a union it is compared as it is spelt. So a
chain of three types breaks where a list in the middle is compared both ways; two lists can
be above each other and still not be equivalent; and the list of the common type is not below
the union of the two lists. The three predicates of §3 to §5 say where exactly, and
`typeOrder_laws_iff` that the laws hold everywhere else.
-/
import WavesNode.Types

set_option autoImplicit false

namespace WavesNode

namespace Lang

namespace FINAL

/-! ## 1. The order that is decided -/

/-- The first type is above the second. -/
inductive Wider : FINAL → FINAL → Prop where
  | nothing (a : FINAL) : Wider a .NOTHING
  | members {a b : FINAL} (ha : a ≠ .NOTHING) (h : ∀ r ∈ b.typeList, r ∈ a.typeList) : Wider a b
  | list {s t : FINAL} (h : Wider s t) : Wider (.list s) (.list t)

theorem Wider.refl (a : FINAL) : Wider a a := by
  by_cases ha : a = .NOTHING
  · rw [ha]
    exact .nothing _
  · exact .members ha fun _ hr => hr

theorem wider_iff {a b : FINAL} : Wider a b ↔ b = .NOTHING ∨
    (a ≠ .NOTHING ∧ ∀ r ∈ b.typeList, r ∈ a.typeList) ∨
      ∃ s t, a = .list s ∧ b = .list t ∧ Wider s t := by
  constructor
  · intro h
    cases h with
    | nothing => exact .inl rfl
    | members ha h => exact .inr (.inl ⟨ha, h⟩)
    | list h => exact .inr (.inr ⟨_, _, rfl, rfl, h⟩)
  · rintro (rfl | ⟨ha, h⟩ | ⟨s, t, rfl, rfl, h⟩)
    · exact .nothing _
    · exact .members ha h
    · exact .list h

/-- Two lists are compared by what they hold. -/
theorem wider_list_iff {s t : FINAL} : Wider (.list s) (.list t) ↔ Wider s t := by
  constructor
  · intro h
    rcases wider_iff.mp h with hnothing | ⟨-, hmem⟩ | ⟨s', t', hs, ht, h'⟩
    · cases hnothing
    · have hts : REAL.LIST t = REAL.LIST s := by simpa using hmem
      rw [REAL.LIST.inj hts]
      exact .refl s
    · cases hs
      cases ht
      exact h'
  · exact .list

/-- Two types that are not both lists are compared by their members. -/
theorem wider_iff_members {a b : FINAL} (hb : b ≠ .NOTHING)
    (hlist : ∀ s t, a = .list s → b ≠ .list t) :
    Wider a b ↔ a ≠ .NOTHING ∧ ∀ r ∈ b.typeList, r ∈ a.typeList := by
  rw [wider_iff]
  constructor
  · rintro (h | h | ⟨s, t, hs, ht, -⟩)
    · exact absurd h hb
    · exact h
    · exact absurd ht (hlist s t hs)
  · exact fun h => .inr (.inl h)

/-- Only nothing is below nothing. -/
theorem eq_nothing_of_wider {b : FINAL} (h : Wider .NOTHING b) : b = .NOTHING := by
  rcases wider_iff.mp h with h | ⟨h, -⟩ | ⟨_, _, h, -⟩
  · exact h
  · exact absurd rfl h
  · cases h

private theorem ge_iff_wider_of_members {a b : FINAL}
    (hlist : ∀ s t, a = .list s → b ≠ .list t) : a.ge b = true ↔ Wider a b := by
  by_cases hb : b = .NOTHING
  · rw [hb, ge_NOTHING]
    exact iff_of_true rfl (.nothing a)
  · by_cases ha : a = .NOTHING
    · rw [ha, NOTHING_ge hb]
      exact iff_of_false Bool.false_ne_true fun h => hb (eq_nothing_of_wider h)
    · rw [ge_eq_members ha hb hlist, wider_iff_members hb hlist, List.all_eq_true]
      simp only [decide_eq_true_eq]
      exact (and_iff_right ha).symm

/-- The comparison decides the order. -/
theorem ge_iff_wider {a b : FINAL} : a.ge b = true ↔ Wider a b := by
  induction a using list_induction generalizing b with
  | list s ih =>
    rcases list_cases b with ⟨t, rfl⟩ | hb
    · rw [ge_list, ih, wider_list_iff]
    · exact ge_iff_wider_of_members fun _ t _ ht => hb t ht
  | other a ha => exact ge_iff_wider_of_members fun s _ hs _ => ha s hs

/-! ## 2. The common type is above both -/

section
variable [SetOrder]

@[simp] theorem findCommonType_NOTHING (a : FINAL) : findCommonType a .NOTHING = a := by
  cases a <;> rfl

@[simp] theorem NOTHING_findCommonType (b : FINAL) : findCommonType .NOTHING b = b := by
  cases b <;> rfl

@[simp] theorem findCommonType_self (a : FINAL) : findCommonType a a = a := by
  cases a with
  | NOTHING => rfl
  | real r =>
    unfold findCommonType
    exact if_pos rfl
  | UNION ts n => exact if_pos rfl

theorem findCommonType_list {s t : FINAL} (hne : s ≠ t) :
    findCommonType (.list s) (.list t) = .list (findCommonType s t) := by
  apply if_neg
  simpa using hne

/-- The common type of two types that are not both lists is a union of their members. -/
theorem findCommonType_union {a b : FINAL} (ha : a ≠ .NOTHING) (hb : b ≠ .NOTHING) (hne : a ≠ b)
    (hlist : ∀ s t, a = .list s → b ≠ .list t) :
    (∃ ts n, findCommonType a b = .UNION ts n) ∧
      ∀ r, r ∈ (findCommonType a b).typeList ↔ r ∈ a.typeList ∨ r ∈ b.typeList := by
  unfold findCommonType
  split
  · exact absurd rfl hb
  · exact absurd rfl ha
  · rw [if_neg hne]
    split
    · exact absurd rfl (hlist _ _ rfl)
    · refine ⟨⟨_, _, rfl⟩, fun r => ?_⟩
      rw [mem_create_real, SetOrder.mem_toSeq, List.mem_append]
      rfl
    · rename_i u n t _ _
      by_cases ht : t ∈ u
      · rw [if_pos ht]
        refine ⟨⟨_, _, rfl⟩, fun r => ?_⟩
        simp only [typeList_UNION, typeList_real, List.mem_singleton]
        exact ⟨.inl, fun h => h.elim id fun hr => hr ▸ ht⟩
      · rw [if_neg ht]
        refine ⟨⟨_, _, rfl⟩, fun r => ?_⟩
        rw [mem_create_real, List.mem_append]
        rfl
    · rename_i t u n _ _
      by_cases ht : t ∈ u
      · rw [if_pos ht]
        refine ⟨⟨_, _, rfl⟩, fun r => ?_⟩
        simp only [typeList_UNION, typeList_real, List.mem_singleton]
        exact ⟨.inr, fun h => h.elim (fun hr => hr ▸ ht) id⟩
      · rw [if_neg ht]
        refine ⟨⟨_, _, rfl⟩, fun r => ?_⟩
        rw [mem_create_real, List.mem_append, or_comm]
        rfl
    · refine ⟨⟨_, _, rfl⟩, fun r => ?_⟩
      rw [mem_create]
      simp

private theorem wider_findCommonType_of_members {a b : FINAL}
    (hlist : ∀ s t, a = .list s → b ≠ .list t) :
    Wider (findCommonType a b) a ∧ Wider (findCommonType a b) b := by
  by_cases ha : a = .NOTHING
  · rw [ha, NOTHING_findCommonType]
    exact ⟨.nothing b, .refl b⟩
  · by_cases hb : b = .NOTHING
    · rw [hb, findCommonType_NOTHING]
      exact ⟨.refl a, .nothing a⟩
    · by_cases hne : a = b
      · rw [hne, findCommonType_self]
        exact ⟨.refl b, .refl b⟩
      · obtain ⟨⟨ts, n, hunion⟩, hmem⟩ := findCommonType_union ha hb hne hlist
        have hcommon : findCommonType a b ≠ .NOTHING := by
          rw [hunion]
          simp
        exact ⟨.members hcommon fun r hr => (hmem r).mpr (.inl hr),
          .members hcommon fun r hr => (hmem r).mpr (.inr hr)⟩

/-- The common type of two types is above both. -/
theorem wider_findCommonType (a b : FINAL) :
    Wider (findCommonType a b) a ∧ Wider (findCommonType a b) b := by
  induction a using list_induction generalizing b with
  | list s ih =>
    rcases list_cases b with ⟨t, rfl⟩ | hb
    · by_cases hst : s = t
      · rw [hst, findCommonType_self]
        exact ⟨.refl _, .refl _⟩
      · rw [findCommonType_list hst]
        exact ⟨.list (ih t).1, .list (ih t).2⟩
    · exact wider_findCommonType_of_members fun _ t _ ht => hb t ht
  | other a ha => exact wider_findCommonType_of_members fun s _ hs _ => ha s hs

end

/-! ## 3. Chains

A list in the middle of a chain is compared as a list with one end and as a member of a
union with the other. -/

/-- The order composes along these three types. -/
def Chained : FINAL → FINAL → FINAL → Prop
  | .real (.LIST s), .real (.LIST t), .real (.LIST u) => Chained s t u
  | .real (.LIST s), .real (.LIST t), .UNION us _ =>
      us ≠ [] → (∀ r ∈ us, r = .LIST t) → Wider s t → s = t
  | .UNION us _, .real (.LIST t), .real (.LIST u) =>
      REAL.LIST t ∈ us → Wider t u → REAL.LIST u ∈ us
  | _, _, _ => True

theorem chained_list {s t u : FINAL} : Chained (.list s) (.list t) (.list u) ↔ Chained s t u :=
  Iff.rfl

theorem chained_list_UNION {s t : FINAL} {us : List REAL} {n : Option String} :
    Chained (.list s) (.list t) (.UNION us n) ↔
      (us ≠ [] → (∀ r ∈ us, r = .LIST t) → Wider s t → s = t) :=
  Iff.rfl

theorem chained_UNION_list {t u : FINAL} {us : List REAL} {n : Option String} :
    Chained (.UNION us n) (.list t) (.list u) ↔
      (REAL.LIST t ∈ us → Wider t u → REAL.LIST u ∈ us) :=
  Iff.rfl

theorem wider_UNION_iff {a : FINAL} {us : List REAL} {n : Option String} :
    Wider a (.UNION us n) ↔ a ≠ .NOTHING ∧ ∀ r ∈ us, r ∈ a.typeList :=
  wider_iff_members (by simp) fun _ _ _ => by simp

/-- What is no list is above a list when it has that list as a member. -/
theorem wider_list_iff_mem {a t : FINAL} (ha : ∀ s, a ≠ .list s) :
    Wider a (.list t) ↔ REAL.LIST t ∈ a.typeList := by
  rw [wider_iff_members (by simp) fun s _ hs => absurd hs (ha s)]
  simp only [typeList_real, List.mem_singleton, forall_eq]
  constructor
  · exact fun h => h.2
  · intro h
    refine ⟨?_, h⟩
    rintro rfl
    simp at h

private theorem list_wider_iff {t c : FINAL} (hc : ∀ s, c ≠ .list s) :
    Wider (.list t) c ↔ ∀ r ∈ c.typeList, r = .LIST t := by
  by_cases hnothing : c = .NOTHING
  · rw [hnothing]
    exact iff_of_true (.nothing _) (by simp)
  · rw [wider_iff_members hnothing fun _ s _ => hc s]
    simp

/-- Members compose. -/
private theorem wider_trans_of_middle {a b c : FINAL} (hb : ∀ s, b ≠ .list s)
    (hab : Wider a b) (hbc : Wider b c) : Wider a c := by
  by_cases hc : c = .NOTHING
  · rw [hc]
    exact .nothing a
  · have hb' : b ≠ .NOTHING := by
      rintro rfl
      exact hc (eq_nothing_of_wider hbc)
    obtain ⟨-, hbc⟩ := (wider_iff_members hc fun s _ hs => absurd hs (hb s)).mp hbc
    obtain ⟨ha, hab⟩ := (wider_iff_members hb' fun _ s _ => hb s).mp hab
    exact .members ha fun r hr => hab r (hbc r hr)

private theorem chained_of_middle {a b c : FINAL} (hb : ∀ s, b ≠ .list s) : Chained a b c := by
  unfold Chained
  split <;> first | trivial | exact absurd rfl (hb _)

private theorem chained_of_ends {a b c : FINAL} (ha : ∀ s, a ≠ .list s) (hc : ∀ s, c ≠ .list s) :
    Chained a b c := by
  unfold Chained
  split <;> first | trivial | exact absurd rfl (ha _) | exact absurd rfl (hc _)

/-- A list, a list and a union of lists. -/
private theorem list_list_trans_iff {s t c : FINAL} (hc : ∀ u, c ≠ .list u) :
    (Wider (.list s) (.list t) → Wider (.list t) c → Wider (.list s) c) ↔
      Chained (.list s) (.list t) c := by
  rw [wider_list_iff, list_wider_iff hc, list_wider_iff hc]
  cases c with
  | NOTHING => exact iff_of_true (fun _ _ => by simp) trivial
  | real r =>
    have hr : r ≠ .LIST t := fun h => hc t (congrArg FINAL.real h)
    have htrue : Chained (.list s) (.list t) (.real r) := by
      cases r <;> first | exact absurd rfl (hc _) | trivial
    refine iff_of_true (fun _ h => ?_) htrue
    exact absurd (h r (by simp)) hr
  | UNION us n =>
    rw [chained_list_UNION, typeList_UNION]
    constructor
    · intro h hne hall hwider
      obtain ⟨r, hr⟩ := List.exists_mem_of_ne_nil us hne
      have heq : REAL.LIST t = REAL.LIST s := (hall r hr).symm.trans (h hwider hall r hr)
      exact (REAL.LIST.inj heq).symm
    · intro h hwider hall r hr
      rw [h (List.ne_nil_of_mem hr) hall hwider]
      exact hall r hr

/-- A union of lists, a list and a list. -/
private theorem list_trans_iff {a t u : FINAL} (ha : ∀ s, a ≠ .list s) :
    (Wider a (.list t) → Wider (.list t) (.list u) → Wider a (.list u)) ↔
      Chained a (.list t) (.list u) := by
  rw [wider_list_iff_mem ha, wider_list_iff_mem ha, wider_list_iff]
  cases a with
  | NOTHING => exact iff_of_true (fun h => by simp at h) trivial
  | real r =>
    have hr : REAL.LIST t ≠ r := fun h => ha t (congrArg FINAL.real h.symm)
    have htrue : Chained (.real r) (.list t) (.list u) := by
      cases r <;> first | exact absurd rfl (ha _) | trivial
    refine iff_of_true (fun h => ?_) htrue
    exact absurd (List.mem_singleton.mp h) hr
  | UNION us n => rw [chained_UNION_list, typeList_UNION]

theorem wider_trans_iff (a b c : FINAL) :
    (Wider a b → Wider b c → Wider a c) ↔ Chained a b c := by
  induction b using list_induction generalizing a c with
  | other b hb => exact iff_of_true (wider_trans_of_middle hb) (chained_of_middle hb)
  | list t ih =>
    rcases list_cases a with ⟨s, rfl⟩ | ha
    · rcases list_cases c with ⟨u, rfl⟩ | hc
      · rw [wider_list_iff, wider_list_iff, wider_list_iff, ih,
          chained_list]
      · exact list_list_trans_iff hc
    · rcases list_cases c with ⟨u, rfl⟩ | hc
      · exact list_trans_iff ha
      · refine iff_of_true (fun hab hbc => ?_) (chained_of_ends ha hc)
        -- the members of the last are this list, and the first has it
        have hmem := (wider_list_iff_mem ha).mp hab
        have hall := (list_wider_iff hc).mp hbc
        refine .members ?_ fun r hr => ?_
        · rintro rfl
          simp at hmem
        · rw [hall r hr]
          exact hmem

/-! ## 4. Equivalent types -/

/-- Nothing is not compared with the union of nothing, and two lists above each other are the
same list. -/
def Spelt (a b : FINAL) : Prop :=
  ((a = .NOTHING ↔ b = .NOTHING) ∨ ¬ (a.typeList = [] ∧ b.typeList = [])) ∧
    ∀ s t, a = .list s → b = .list t → Wider s t → Wider t s → s = t

private theorem equivalent_of_wider {a b : FINAL} (hab : Wider a b) (hba : Wider b a)
    (hlist : ∀ s t, a = .list s → b = .list t → s = t) : a.equivalent b = true := by
  rw [equivalent_iff]
  by_cases hboth : ∃ s t, a = .list s ∧ b = .list t
  · obtain ⟨s, t, ha, hb⟩ := hboth
    rw [ha, hb, hlist s t ha hb]
    exact fun r => Iff.rfl
  · by_cases ha : a = .NOTHING
    · rw [ha] at hab ⊢
      rw [eq_nothing_of_wider hab]
      exact fun r => Iff.rfl
    · by_cases hb : b = .NOTHING
      · rw [hb] at hba
        exact absurd (eq_nothing_of_wider hba) ha
      · have hab' := (wider_iff_members hb fun s t hs ht => hboth ⟨s, t, hs, ht⟩).mp hab
        have hba' := (wider_iff_members ha fun s t hs ht => hboth ⟨t, s, ht, hs⟩).mp hba
        exact fun r => ⟨hba'.2 r, hab'.2 r⟩

private theorem wider_of_equivalent {a b : FINAL} (h : ∀ r, r ∈ a.typeList ↔ r ∈ b.typeList)
    (hnothing : a = .NOTHING → b = .NOTHING) : Wider a b := by
  by_cases ha : a = .NOTHING
  · rw [hnothing ha]
    exact .nothing a
  · exact .members ha fun r hr => (h r).mpr hr

theorem equivalent_iff_wider_iff (a b : FINAL) :
    (a.equivalent b = true ↔ Wider a b ∧ Wider b a) ↔ Spelt a b := by
  constructor
  · intro h
    refine ⟨?_, ?_⟩
    · by_cases hempty : a.typeList = [] ∧ b.typeList = []
      · -- two types without members are equivalent, whatever they are
        have hequiv : a.equivalent b = true := by
          rw [equivalent_iff, hempty.1, hempty.2]
          exact fun r => Iff.rfl
        obtain ⟨hab, hba⟩ := h.mp hequiv
        left
        constructor
        · rintro rfl
          exact eq_nothing_of_wider hab
        · rintro rfl
          exact eq_nothing_of_wider hba
      · exact .inr hempty
    · rintro s t rfl rfl hst hts
      have hequiv := equivalent_iff.mp (h.mpr ⟨.list hst, .list hts⟩) (.LIST s)
      simpa using hequiv
  · rintro ⟨hnothing, hlist⟩
    constructor
    · intro hequiv
      have hmem := equivalent_iff.mp hequiv
      have hempty : ∀ {c d : FINAL}, (∀ r, r ∈ c.typeList ↔ r ∈ d.typeList) → c = .NOTHING →
          c.typeList = [] ∧ d.typeList = [] := by
        rintro c d hcd rfl
        exact ⟨rfl, List.eq_nil_iff_forall_not_mem.mpr fun r hr => by simpa using (hcd r).mpr hr⟩
      have hmem' := fun r => (hmem r).symm
      refine ⟨wider_of_equivalent hmem fun ha => ?_, wider_of_equivalent hmem' fun hb => ?_⟩
      · rcases hnothing with h | h
        · exact h.mp ha
        · exact absurd (hempty hmem ha) h
      · rcases hnothing with h | h
        · exact h.mpr hb
        · exact absurd (hempty hmem' hb).symm h
    · rintro ⟨hab, hba⟩
      refine equivalent_of_wider hab hba fun s t hs ht => ?_
      rw [hs, ht, wider_list_iff] at hab hba
      exact hlist s t hs ht hab hba

/-! ## 5. The least common type -/

private theorem create_append_ne {u : List REAL} {r : REAL} (hr : r ∉ u) (n : Option String) :
    create ((u ++ [r]).map .real) none ≠ .UNION u n := by
  intro h
  have hmem : r ∈ (create ((u ++ [r]).map .real) none).typeList := by
    rw [mem_create_real]
    simp
  rw [h] at hmem
  exact hr hmem

section
variable [SetOrder]

/-- The common type of the two is one of the two: there is nothing to put together. -/
def Absorbed : FINAL → FINAL → Prop
  | _, .NOTHING | .NOTHING, _ => True
  | .real (.LIST s), .real (.LIST t) => Absorbed s t
  | .UNION u m, .UNION v n =>
      let both := create ((SetOrder.toSeq (u ++ v)).map .real) none
      FINAL.UNION u m = .UNION v n ∨ both = .UNION u m ∨ both = .UNION v n
  | .UNION u _, .real r | .real r, .UNION u _ => r ∈ u
  | .real p, .real q => p = q

theorem absorbed_list {s t : FINAL} : Absorbed (.list s) (.list t) ↔ Absorbed s t := Iff.rfl

theorem absorbed_UNION {u v : List REAL} {m n : Option String} :
    Absorbed (.UNION u m) (.UNION v n) ↔ FINAL.UNION u m = .UNION v n ∨
      create ((SetOrder.toSeq (u ++ v)).map .real) none = .UNION u m ∨
      create ((SetOrder.toSeq (u ++ v)).map .real) none = .UNION v n :=
  Iff.rfl

theorem absorbed_UNION_real {u : List REAL} {n : Option String} {r : REAL} :
    Absorbed (.UNION u n) (.real r) ↔ r ∈ u :=
  Iff.rfl

theorem absorbed_real_UNION {u : List REAL} {n : Option String} {r : REAL} :
    Absorbed (.real r) (.UNION u n) ↔ r ∈ u :=
  Iff.rfl

private theorem absorbed_real_iff {p q : REAL} (h : ∀ s t, p = .LIST s → q ≠ .LIST t) :
    Absorbed (.real p) (.real q) ↔ p = q := by
  unfold Absorbed
  split <;> simp_all

private theorem findCommonType_real {p q : REAL} (hne : p ≠ q)
    (h : ∀ s t, p = .LIST s → q ≠ .LIST t) :
    findCommonType (.real p) (.real q) = create [.real p, .real q] none := by
  unfold findCommonType
  simp only [FINAL.real.injEq, hne, if_false]
  split <;> simp_all

private theorem findCommonType_UNION_real {u : List REAL} {n : Option String} {r : REAL} :
    findCommonType (.UNION u n) (.real r) =
      if r ∈ u then .UNION u n else create ((u ++ [r]).map .real) none := by
  apply if_neg
  simp

private theorem findCommonType_real_UNION {u : List REAL} {n : Option String} {r : REAL} :
    findCommonType (.real r) (.UNION u n) =
      if r ∈ u then .UNION u n else create ((u ++ [r]).map .real) none := by
  unfold findCommonType
  simp

private theorem absorbed_iff_of_members {a b : FINAL} (hlist : ∀ s t, a = .list s → b ≠ .list t) :
    Absorbed a b ↔ findCommonType a b = a ∨ findCommonType a b = b := by
  cases a with
  | NOTHING =>
    rw [NOTHING_findCommonType]
    exact iff_of_true (by cases b <;> trivial) (.inr rfl)
  | UNION u m =>
    cases b with
    | NOTHING => exact iff_of_true trivial (.inl (findCommonType_NOTHING _))
    | UNION v n =>
      by_cases hne : FINAL.UNION u m = .UNION v n
      · rw [← hne, findCommonType_self]
        exact iff_of_true (.inl rfl) (.inl rfl)
      · have hcommon : findCommonType (.UNION u m) (.UNION v n) =
            create ((SetOrder.toSeq (u ++ v)).map .real) none := by
          exact if_neg hne
        rw [hcommon, absorbed_UNION, or_iff_right hne]
    | real r =>
      rw [findCommonType_UNION_real, absorbed_UNION_real]
      by_cases hr : r ∈ u
      · simp [hr]
      · simp only [hr, if_false, create_append_ne hr m, false_or, false_iff]
        simp [create]
  | real p =>
    cases b with
    | NOTHING => exact iff_of_true trivial (.inl (findCommonType_NOTHING _))
    | UNION v n =>
      rw [findCommonType_real_UNION, absorbed_real_UNION]
      by_cases hp : p ∈ v
      · simp [hp]
      · simp only [hp, if_false, create_append_ne hp n, or_false, false_iff]
        simp [create]
    | real q =>
      have hpq : ∀ s t, p = .LIST s → q ≠ .LIST t := by
        rintro s t rfl rfl
        exact hlist s t rfl rfl
      rw [absorbed_real_iff hpq]
      by_cases hne : p = q
      · rw [hne, findCommonType_self]
        simp
      · rw [findCommonType_real hne hpq]
        simp [hne, create]

theorem absorbed_iff (a b : FINAL) :
    Absorbed a b ↔ findCommonType a b = a ∨ findCommonType a b = b := by
  induction a using list_induction generalizing b with
  | list s ih =>
    rcases list_cases b with ⟨t, rfl⟩ | hb
    · by_cases hst : s = t
      · rw [hst, findCommonType_self]
        refine iff_of_true ?_ (.inl rfl)
        rw [absorbed_list, ← hst, ih, findCommonType_self]
        exact .inl rfl
      · rw [findCommonType_list hst]
        rw [absorbed_list, ih]
        simp only [FINAL.real.injEq, REAL.LIST.injEq]
    · exact absorbed_iff_of_members fun _ t _ ht => hb t ht
  | other a ha => exact absorbed_iff_of_members fun s _ hs _ => ha s hs

/-- A list is a member of the union, or no list that all members of the union are is above it. -/
def Apart (a b : FINAL) : Prop :=
  ∀ u n t, a = .UNION u n → b = .list t →
    REAL.LIST t ∈ u ∨ ∀ s, (∀ r ∈ u, r = .LIST s) → ¬ Wider s t

/-- The common type of the two is below all that is above both. -/
def Joined (a b : FINAL) : Prop :=
  (∀ s t, a = .list s → b = .list t → Absorbed s t) ∧ Apart a b ∧ Apart b a

omit [SetOrder] in
/-- Below a list, and with it another list: the two lists are the same. -/
private theorem eq_of_list_wider {a t c : FINAL} (hne : a ≠ .NOTHING) (ha : ∀ s, a ≠ .list s)
    (hapart : Apart a (.list t)) (hca : Wider (.list c) a) (hct : Wider c t) : t = c := by
  have hall := (list_wider_iff ha).mp hca
  cases a with
  | NOTHING => exact absurd rfl hne
  | real r =>
    have hr : r = .LIST c := hall r (by simp)
    exact absurd (congrArg FINAL.real hr) (ha c)
  | UNION u n =>
    rcases hapart u n t rfl rfl with hmem | hnone
    · exact REAL.LIST.inj (hall _ hmem)
    · exact absurd hct (hnone c hall)

omit [SetOrder] in
private theorem members_of_wider {a b c : FINAL} (ha : a ≠ .NOTHING) (hb : b ≠ .NOTHING)
    (hlist : ∀ s t, a = .list s → b ≠ .list t) (hapart : Apart b a)
    (hca : Wider c a) (hcb : Wider c b) : ∀ r ∈ a.typeList, r ∈ c.typeList := by
  by_cases hboth : ∃ s t, c = .list s ∧ a = .list t
  · obtain ⟨s, t, rfl, rfl⟩ := hboth
    rw [eq_of_list_wider hb (hlist t · rfl) hapart hcb (wider_list_iff.mp hca)]
    exact fun _ hr => hr
  · exact ((wider_iff_members ha fun s t hs ht => hboth ⟨s, t, hs, ht⟩).mp hca).2

theorem least_of_joined {a b c : FINAL} (h : Joined a b) (hca : Wider c a) (hcb : Wider c b) :
    Wider c (findCommonType a b) := by
  obtain ⟨habsorbed, hab, hba⟩ := h
  by_cases ha : a = .NOTHING
  · rwa [ha, NOTHING_findCommonType]
  by_cases hb : b = .NOTHING
  · rwa [hb, findCommonType_NOTHING]
  by_cases hne : a = b
  · rwa [hne, findCommonType_self]
  by_cases hboth : ∃ s t, a = .list s ∧ b = .list t
  · obtain ⟨s, t, rfl, rfl⟩ := hboth
    have hst : s ≠ t := fun h => hne (congrArg FINAL.list h)
    rw [findCommonType_list hst]
    rcases (absorbed_iff s t).mp (habsorbed s t rfl rfl) with h | h
    · rwa [h]
    · rwa [h]
  · have hlist : ∀ s t, a = .list s → b ≠ .list t := fun s t hs ht => hboth ⟨s, t, hs, ht⟩
    obtain ⟨⟨ts, n, hunion⟩, hmem⟩ := findCommonType_union ha hb hne hlist
    have hc : c ≠ .NOTHING := by
      rintro rfl
      exact ha (eq_nothing_of_wider hca)
    refine .members hc fun r hr => ?_
    rcases (hmem r).mp hr with hr | hr
    · exact members_of_wider ha hb hlist hba hca hcb r hr
    · exact members_of_wider hb ha (fun s t hs ht => hlist t s ht hs) hab hcb hca r hr

omit [SetOrder] in
/-- Another type is above the same members. -/
private theorem exists_wider_ne (t : FINAL) : ∃ s, Wider s t ∧ t ≠ s := by
  by_cases h : t = .UNION t.typeList none
  · refine ⟨.UNION t.typeList (some ""), .members (by simp) (by simp), ?_⟩
    rw [h]
    simp
  · exact ⟨.UNION t.typeList none, .members (by simp) (by simp), h⟩

omit [SetOrder] in
private theorem apart_of_least {a b common : FINAL}
    (hunion : ∀ u n t, a = .UNION u n → b = .list t →
      (∃ ts m, common = .UNION ts m) ∧ REAL.LIST t ∈ common.typeList)
    (hleast : ∀ c, Wider c a → Wider c b → Wider c common) : Apart a b := by
  intro u n t ha hb
  obtain ⟨⟨ts, m, hcommon⟩, hmem⟩ := hunion u n t ha hb
  by_contra hnot
  rw [not_or] at hnot
  obtain ⟨ht, hsome⟩ := hnot
  push Not at hsome
  obtain ⟨s, hall, hwider⟩ := hsome
  -- a list above both that is not the list itself
  obtain ⟨s', hall', hwider', hne⟩ : ∃ s', (∀ r ∈ u, r = .LIST s') ∧ Wider s' t ∧ t ≠ s' := by
    by_cases hst : t = s
    · have hu : u = [] := by
        rw [List.eq_nil_iff_forall_not_mem]
        intro r hr
        apply ht
        rw [hst, ← hall r hr]
        exact hr
      obtain ⟨s', hs', hne⟩ := exists_wider_ne t
      exact ⟨s', by simp [hu], hs', hne⟩
    · exact ⟨s, hall, hwider, hst⟩
  have ha' : Wider (.list s') a := by
    rw [ha, list_wider_iff fun _ => by simp]
    exact hall'
  have hb' : Wider (.list s') b := by
    rw [hb]
    exact .list hwider'
  have hbelow := hleast _ ha' hb'
  rw [list_wider_iff fun _ => by simp [hcommon]] at hbelow
  exact hne (REAL.LIST.inj (hbelow _ hmem))

theorem findCommonType_least_iff (a b : FINAL) :
    (∀ c, Wider c a → Wider c b → Wider c (findCommonType a b)) ↔ Joined a b := by
  constructor
  · intro h
    refine ⟨?_, ?_, ?_⟩
    · rintro s t rfl rfl
      rw [absorbed_iff]
      by_cases hst : s = t
      · rw [hst, findCommonType_self]
        exact .inl rfl
      · have habove := h (.UNION [.LIST s, .LIST t] none)
          (.members (by simp) (by simp)) (.members (by simp) (by simp))
        rw [findCommonType_list hst, wider_list_iff_mem fun _ => by simp] at habove
        simpa using habove
    · refine apart_of_least ?_ h
      rintro u n t rfl rfl
      obtain ⟨hunion, hmem⟩ := findCommonType_union (a := .UNION u n) (b := .list t)
        (by simp) (by simp) (by simp) fun _ _ _ => by simp_all
      exact ⟨hunion, (hmem _).mpr (.inr (by simp))⟩
    · refine apart_of_least ?_ fun c hcb hca => h c hca hcb
      rintro u n t rfl rfl
      obtain ⟨hunion, hmem⟩ := findCommonType_union (a := .list t) (b := .UNION u n)
        (by simp) (by simp) (by simp) fun _ _ _ => by simp_all
      exact ⟨hunion, (hmem _).mpr (.inl (by simp))⟩
  · exact fun h c hca hcb => least_of_joined h hca hcb

/-! ## 6. The laws -/

/-- The laws of the order, of these three types. -/
structure OrderLaws (a b c : FINAL) : Prop where
  refl : a.ge a = true
  trans : a.ge b = true → b.ge c = true → a.ge c = true
  equivalent_iff : a.equivalent b = true ↔ a.ge b = true ∧ b.ge a = true
  common_ge_left : (findCommonType a b).ge a = true
  common_ge_right : (findCommonType a b).ge b = true
  common_least : ∀ d : FINAL, d.ge a = true → d.ge b = true → d.ge (findCommonType a b) = true

/-- **The laws of the order** hold of three types exactly when no list among them is compared
both as a list and as a member, the two are spelt alike if they are each above the other, and
lists that are joined have nothing to put together. -/
theorem orderLaws_iff (a b c : FINAL) :
    OrderLaws a b c ↔ Chained a b c ∧ Spelt a b ∧ Joined a b := by
  rw [← wider_trans_iff, ← equivalent_iff_wider_iff, ← findCommonType_least_iff]
  simp only [← ge_iff_wider]
  constructor
  · rintro ⟨-, htrans, hequivalent, -, -, hleast⟩
    exact ⟨htrans, hequivalent, hleast⟩
  · rintro ⟨htrans, hequivalent, hleast⟩
    obtain ⟨hleft, hright⟩ := wider_findCommonType a b
    exact ⟨ge_iff_wider.mpr (.refl a), htrans, hequivalent, ge_iff_wider.mpr hleft,
      ge_iff_wider.mpr hright, hleast⟩

end

/-- The elements of a set, in the order in which they were put in. -/
local instance insertionOrder : SetOrder := ⟨id, fun _ _ => Iff.rfl⟩

/-- `Int | List[Int | String]` is above `List[Int | String]`, which is above `List[Int]`, and it
is not above `List[Int]`. The two spellings of `List[Int | String]` are above each other but not
equivalent. And `List[Int] | List[String]` is above its two members, but not above their
common type. -/
theorem order_not_lawful :
    let int := FINAL.list (.real .LONG)
    let string := FINAL.list (.real .STRING)
    let both := FINAL.list (.UNION [.LONG, .STRING] none)
    let respelt := FINAL.list (.UNION [.STRING, .LONG] none)
    let wide := FINAL.UNION [.LONG, .LIST (.UNION [.LONG, .STRING] none)] none
    let members := FINAL.UNION [.LIST (.real .LONG), .LIST (.real .STRING)] none
    (wide.ge both = true ∧ both.ge int = true ∧ wide.ge int = false) ∧
    (both.ge respelt = true ∧ respelt.ge both = true ∧ both.equivalent respelt = false) ∧
    (members.ge int = true ∧ members.ge string = true ∧
      members.ge (findCommonType int string) = false) := by
  decide +kernel

end FINAL

end Lang

end WavesNode
