/-
What a forged block keeps of the liquid block, and what it takes back.

A block may come on any part of the liquid one. The updater then forges the block up
to the part it is on (`NgState.totalDiffOf`), persists it, and gives the transactions of
the micro-blocks after it back to the pool. The two together are the transactions of
the liquid block: those kept, and those given back, in the order they stood in.

The accumulated diff is found by a walk along references (`diffFor_of_reference`), which
ends wherever each micro-block is on an older one. The forged block is found by a fold over
the micro-blocks, oldest first, that changes its mode at the one asked for
(`foldl_forgeStep`): before it, transactions are collected; after it, micro-blocks are
put *in front of* those already discarded. So the discarded micro-blocks of a micro-block
are the newest first, while those of the key block are the oldest first, and what is given
back is in the order of the chain only if it reads the same from both ends
(`totalDiffOf_bookkept_iff`).
-/
import WavesNode.NgState
import WavesNode.Devnet
import WavesNode.Walks
import Mathlib.Data.List.Flatten
import Mathlib.Data.List.TakeWhile

set_option autoImplicit false

namespace WavesNode

/-- A list of lists that does not repeat anything reads the same with its parts turned round only
if no more than one part is not empty. -/
theorem flatMap_reverse_eq_iff {α β : Type} {f : α → List β} {l : List α}
    (h : (l.flatMap f).Nodup) :
    l.reverse.flatMap f = l.flatMap f ↔ (l.filter fun a => f a ≠ []).length ≤ 1 := by
  -- the empty parts contribute nothing on either side
  have hdrop : ∀ m : List α, m.flatMap f = (m.filter fun a => f a ≠ []).flatMap f := by
    intro m
    induction m with
    | nil => rfl
    | cons a m ih =>
      by_cases ha : f a = []
      · rw [List.flatMap_cons, ha, List.nil_append, ih, List.filter_cons_of_neg (by simp [ha])]
      · rw [List.flatMap_cons, ih, List.filter_cons_of_pos (by simp [ha]), List.flatMap_cons]
  rw [hdrop l.reverse, hdrop l, List.filter_reverse]
  rw [hdrop l] at h
  have hparts : ∀ a ∈ l.filter fun a => f a ≠ [], f a ≠ [] := by
    intro a ha
    simpa using (List.mem_filter.mp ha).2
  generalize l.filter (fun a => f a ≠ []) = parts at h hparts ⊢
  rcases parts with _ | ⟨a, _ | ⟨b, rest⟩⟩
  · simp
  · simp
  · refine iff_of_false ?_ (by simp)
    intro heq
    -- the first thing of the first part would stand in a later one too
    obtain ⟨x, xs, hx⟩ := List.exists_cons_of_ne_nil (hparts a List.mem_cons_self)
    have hlater : ((b :: rest).reverse.flatMap f).head? = some x := by
      have hne : (b :: rest).reverse.flatMap f ≠ [] := by
        obtain ⟨y, ys, hy⟩ := List.exists_cons_of_ne_nil
          (hparts b (List.mem_cons_of_mem a List.mem_cons_self))
        refine List.ne_nil_of_mem (a := y) (List.mem_flatMap.mpr ⟨b, by simp, ?_⟩)
        rw [hy]
        exact List.mem_cons_self
      have hhead := congrArg List.head? heq
      rw [List.reverse_cons, List.flatMap_append, List.head?_append_of_ne_nil _ hne,
        List.flatMap_cons, hx, List.cons_append, List.head?_cons] at hhead
      exact hhead
    rw [List.flatMap_cons, List.nodup_append] at h
    refine h.2.2 x (by rw [hx]; exact List.mem_cons_self) x ?_ rfl
    obtain ⟨c, hc, hxc⟩ := List.mem_flatMap.mp (List.mem_of_head? hlater)
    exact List.mem_flatMap.mpr ⟨c, List.mem_reverse.mp hc, hxc⟩

namespace NgState

section
variable (ng : NgState)

/-! ## 1. The walk along the references -/

/-- Whether an identifier is that of the key block or of a micro-block. -/
def Known (id : BlockId) : Prop :=
  id = ng.base.uniqueId ∨ ∃ m ∈ ng.microBlocks, m.totalResBlockSig = id

/-- Where the walk of `diffFor` goes next. -/
def reference (id : BlockId) : Option BlockId :=
  if id = ng.base.uniqueId then none
  else (ng.microBlocks.find? fun m => m.totalResBlockSig = id).map MicroBlock.prevResBlockSig

/-- What `diffFor` answers where the walk ends: the diff of the key block, and nothing for
what is not known. -/
def ground (id : BlockId) : Diff × Long × Long :=
  if id = ng.base.uniqueId then (ng.baseBlockDiff, ng.baseBlockCarry, ng.baseBlockTotalFee)
  else (Diff.empty, 0, 0)

/-- A micro-block's own diff on what is below it. -/
def stackDiff (id : BlockId) (prev : Diff × Long × Long) : Validation (Diff × Long × Long) := do
  let micro ← .get "NoSuchElementException" (ng.microDiffs.get? id)
  .ok (prev.1.combine micro.diff, prev.2.1 + micro.carryFee, prev.2.2 + micro.totalFee)

variable {ng}

theorem mem_of_reference {id : BlockId} (h : (ng.reference id).isSome = true) :
    id ∈ ng.microBlocks.map MicroBlock.totalResBlockSig := by
  unfold reference at h
  split at h
  · cases h
  · rw [Option.isSome_map] at h
    obtain ⟨m, hm⟩ := Option.isSome_iff_exists.mp h
    refine List.mem_map.mpr ⟨m, List.mem_of_find?_eq_some hm, ?_⟩
    simpa using List.find?_some hm

theorem diffForWithin_of_ends (fuel : ℕ) {id : BlockId} (h : ng.reference id = none) :
    ng.diffForWithin fuel id = .ok (ng.ground id) := by
  unfold reference at h
  unfold diffForWithin ground
  by_cases hbase : id = ng.base.uniqueId
  · rw [if_pos hbase, if_pos hbase]
  · rw [if_neg hbase] at h ⊢
    rw [if_neg hbase, Option.map_eq_none_iff.mp h]

theorem diffForWithin_succ (fuel : ℕ) {id prev : BlockId} (h : ng.reference id = some prev) :
    ng.diffForWithin (fuel + 1) id = ng.diffForWithin fuel prev >>= ng.stackDiff id := by
  unfold reference at h
  split at h
  · cases h
  · rename_i hbase
    obtain ⟨m, hm, hprev⟩ := Option.map_eq_some_iff.mp h
    rw [diffForWithin, if_neg hbase, hm, ← hprev]
    rfl

theorem diffForWithin_zero {id prev : BlockId} (h : ng.reference id = some prev) :
    ng.diffForWithin 0 id = .throwing "StackOverflowError" := by
  unfold reference at h
  split at h
  · cases h
  · rename_i hbase
    obtain ⟨m, hm, -⟩ := Option.map_eq_some_iff.mp h
    rw [diffForWithin, if_neg hbase, hm]

/-- More fuel than the walk needs changes nothing. -/
theorem diffForWithin_eq {n fuel : ℕ} {id : BlockId} (h : Walk.EndsAfter ng.reference n id)
    (hfuel : n ≤ fuel) : ng.diffForWithin fuel id = ng.diffForWithin n id := by
  induction n generalizing fuel id with
  | zero => rw [diffForWithin_of_ends fuel h, diffForWithin_of_ends 0 h]
  | succ n ih =>
    obtain ⟨prev, hprev, hrest⟩ := h
    obtain ⟨fuel, rfl⟩ : ∃ f, fuel = f + 1 := ⟨fuel - 1, by omega⟩
    rw [diffForWithin_succ fuel hprev, diffForWithin_succ n hprev, ih hrest (by omega)]

theorem diffForWithin_endless {id : BlockId} (h : ¬Walk.Ends ng.reference id) (fuel : ℕ) :
    ng.diffForWithin fuel id = .throwing "StackOverflowError" := by
  induction fuel generalizing id with
  | zero =>
    cases hprev : ng.reference id with
    | none => exact absurd (Walk.ends_of_none hprev) h
    | some prev => exact diffForWithin_zero hprev
  | succ fuel ih =>
    cases hprev : ng.reference id with
    | none => exact absurd (Walk.ends_of_none hprev) h
    | some prev =>
      rw [Walk.ends_iff hprev] at h
      rw [diffForWithin_succ fuel hprev, ih h]
      rfl

theorem diffFor_of_ends {id : BlockId} (h : ng.reference id = none) :
    ng.diffFor id = .ok (ng.ground id) := diffForWithin_of_ends _ h

/-- **One step of `diffFor`**: the source's recursion, without fuel. -/
theorem diffFor_of_reference {id prev : BlockId} (h : ng.reference id = some prev) :
    ng.diffFor id = ng.diffFor prev >>= ng.stackDiff id := by
  unfold diffFor
  by_cases hends : Walk.Ends ng.reference prev
  · obtain ⟨n, hn⟩ := hends
    -- the longer walk fits the fuel, so the shorter one leaves a unit of it
    have hlength : n + 1 ≤ ng.microBlocks.length := by
      rw [← List.length_map MicroBlock.totalResBlockSig]
      exact Walk.endsAfter_le_length (fun z => mem_of_reference) ⟨prev, h, hn⟩
    have hlong : Walk.EndsAfter ng.reference (n + 1) id := ⟨prev, h, hn⟩
    have hfuel : n ≤ ng.microBlocks.length := by omega
    rw [diffForWithin_eq hlong hlength, diffForWithin_succ n h, diffForWithin_eq hn hfuel]
  · rw [diffForWithin_endless hends, diffForWithin_endless (by rwa [Walk.ends_iff h])]
    rfl

/-- Every micro-block has its diff. -/
def Recorded (ng : NgState) : Prop :=
  ∀ m ∈ ng.microBlocks, ng.microDiffs.contains m.totalResBlockSig = true

theorem Recorded.append (h : ng.Recorded) (m : MicroBlock) (diff : Diff) (carry totalFee : Long) :
    (ng.append m diff carry totalFee).Recorded := by
  intro m' hm'
  change ((ng.microDiffs.insert m.totalResBlockSig _).get? m'.totalResBlockSig).isSome = true
  rw [FiniteMap.get?_insert]
  by_cases hid : m'.totalResBlockSig = m.totalResBlockSig
  · rw [if_pos hid]
    rfl
  · rw [if_neg hid]
    rcases List.mem_cons.mp hm' with rfl | hm'
    · exact absurd rfl hid
    · exact h m' hm'

/-- The accumulated diff is there exactly when the walk ends. -/
theorem diffFor_isOk_iff (h : ng.Recorded) {id : BlockId} :
    (∃ r, ng.diffFor id = .ok r) ↔ Walk.Ends ng.reference id := by
  constructor
  · rintro ⟨r, hr⟩
    by_contra hends
    rw [diffFor, diffForWithin_endless hends] at hr
    exact Validation.throwing_ne_ok hr
  · rintro ⟨n, hn⟩
    induction n generalizing id with
    | zero => exact ⟨_, diffFor_of_ends hn⟩
    | succ n ih =>
      obtain ⟨prev, hprev, hrest⟩ := hn
      obtain ⟨r, hr⟩ := ih hrest
      obtain ⟨m, hm, hid⟩ := List.mem_map.mp (mem_of_reference (by rw [hprev]; rfl))
      have hrecorded := h m hm
      rw [hid] at hrecorded
      obtain ⟨micro, hmicro⟩ := Option.isSome_iff_exists.mp hrecorded
      refine ⟨(r.1.combine micro.diff, r.2.1 + micro.carryFee, r.2.2 + micro.totalFee), ?_⟩
      rw [diffFor_of_reference hprev, hr, Validation.ok_bind, stackDiff, hmicro]
      rfl

/-! ## 2. The fold that forges -/

theorem foldl_forgeStep_found (blockId sig : BlockId) (accumulated : List Transaction)
    (discarded micros : List MicroBlock) :
    micros.foldl (forgeStep blockId) (accumulated, some (sig, discarded)) =
      (accumulated, some (sig, micros.reverse ++ discarded)) := by
  induction micros generalizing discarded with
  | nil => rfl
  | cons micro micros ih =>
    rw [List.foldl_cons, forgeStep, ih, List.reverse_cons, List.append_assoc, List.singleton_append]

theorem foldl_forgeStep_before (blockId : BlockId) (accumulated : List Transaction)
    {micros : List MicroBlock} (h : ∀ m ∈ micros, m.totalResBlockSig ≠ blockId) :
    micros.foldl (forgeStep blockId) (accumulated, none) =
      (accumulated ++ micros.flatMap MicroBlock.transactionData, none) := by
  induction micros generalizing accumulated with
  | nil => rw [List.foldl_nil, List.flatMap_nil, List.append_nil]
  | cons micro micros ih =>
    rw [List.foldl_cons, forgeStep, if_neg (h micro List.mem_cons_self),
      ih _ fun m hm => h m (List.mem_cons_of_mem micro hm), List.flatMap_cons, List.append_assoc]

/-- **The walk of `forgeBlock`**: the transactions up to the micro-block asked for, and the
micro-blocks after it, turned round. -/
theorem foldl_forgeStep {blockId : BlockId} {before after : List MicroBlock} {m : MicroBlock}
    (hbefore : ∀ m ∈ before, m.totalResBlockSig ≠ blockId) (hm : m.totalResBlockSig = blockId) :
    (before ++ m :: after).foldl (forgeStep blockId) ([], none) =
      (before.flatMap MicroBlock.transactionData ++ m.transactionData,
        some (blockId, after.reverse)) := by
  rw [List.foldl_append, foldl_forgeStep_before blockId [] hbefore, List.nil_append,
    List.foldl_cons, forgeStep, if_pos hm, foldl_forgeStep_found, List.append_nil, hm]

/-- The micro-blocks after a part of the liquid block, the oldest first. -/
def microBlocksAfter (ng : NgState) (id : BlockId) : List MicroBlock :=
  if ng.base.uniqueId = id then ng.microBlocks.reverse
  else (ng.microBlocks.reverse.dropWhile fun m => m.totalResBlockSig ≠ id).tail

theorem microBlocks_split {id : BlockId} (hbase : ng.base.uniqueId ≠ id) (h : ng.Known id) :
    ∃ before m, ng.microBlocks.reverse = before ++ m :: ng.microBlocksAfter id ∧
      (∀ m ∈ before, m.totalResBlockSig ≠ id) ∧ m.totalResBlockSig = id := by
  set p : MicroBlock → Bool := fun m => m.totalResBlockSig ≠ id with hp
  have hafter : ng.microBlocksAfter id = (ng.microBlocks.reverse.dropWhile p).tail := if_neg hbase
  obtain ⟨m, hm, hid⟩ := h.resolve_left fun hid => hbase hid.symm
  cases hdrop : ng.microBlocks.reverse.dropWhile p with
  | nil =>
    have hall := List.dropWhile_eq_nil_iff.mp hdrop m (List.mem_reverse.mpr hm)
    rw [hp, decide_eq_true_eq] at hall
    exact absurd hid hall
  | cons found after =>
    refine ⟨ng.microBlocks.reverse.takeWhile p, found, ?_, ?_, ?_⟩
    · rw [hafter, hdrop, List.tail_cons, ← hdrop, List.takeWhile_append_dropWhile]
    · intro m hm
      have := List.mem_takeWhile_imp hm
      rwa [hp, decide_eq_true_eq] at this
    · have hfirst := List.head?_dropWhile_not p ng.microBlocks.reverse
      rw [hdrop, List.head?_cons] at hfirst
      simpa [hp] using hfirst

end

/-! ## 3. What is kept and what is given back -/

section
variable [BlockSerializer] {ng : NgState}

omit [BlockSerializer] in
theorem transactions_eq : ng.transactions =
    ng.base.transactionData ++ ng.microBlocks.reverse.flatMap MicroBlock.transactionData := by
  rw [transactions, ← List.map_reverse, List.flatMap_def]

theorem forgeBlock_base : ng.forgeBlock ng.base.uniqueId = some (ng.base, ng.microBlocks.reverse) :=
  if_pos rfl

theorem forgeBlock_unknown {id : BlockId} (h : ¬ng.Known id) : ng.forgeBlock id = none := by
  rw [Known, not_or] at h
  have hany : (ng.microBlocks.reverse.any fun m => m.totalResBlockSig = id) = false := by
    rw [List.any_eq_false]
    intro m hm hid
    exact h.2 ⟨m, List.mem_reverse.mp hm, of_decide_eq_true hid⟩
  unfold forgeBlock
  dsimp only
  rw [if_neg (Ne.symm h.1), hany]
  rfl

/-- What is forged for a micro-block: the transactions up to it, and the micro-blocks after
it, the newest first. -/
theorem forgeBlock_micro {id : BlockId} {before : List MicroBlock} {m : MicroBlock}
    (hbase : ng.base.uniqueId ≠ id)
    (hsplit : ng.microBlocks.reverse = before ++ m :: ng.microBlocksAfter id)
    (hbefore : ∀ m ∈ before, m.totalResBlockSig ≠ id) (hm : m.totalResBlockSig = id) :
    ng.forgeBlock id =
      some (Block.create ng.base (ng.base.transactionData ++
        (before.flatMap MicroBlock.transactionData ++ m.transactionData)) id,
        (ng.microBlocksAfter id).reverse) := by
  have hany : (ng.microBlocks.reverse.any fun m => m.totalResBlockSig = id) = true := by
    refine List.any_eq_true.mpr ⟨m, ?_, decide_eq_true hm⟩
    rw [hsplit]
    exact List.mem_append_right _ List.mem_cons_self
  unfold forgeBlock
  dsimp only
  rw [if_neg hbase, hany, hsplit, foldl_forgeStep hbefore hm]
  rfl

/-- The bookkeeping of a fork: what the forged block keeps and what is given back, in this
order, are the transactions of the liquid block; and nothing is forged for a stranger. -/
def Bookkept (ng : NgState) (id : BlockId) : Prop :=
  (ng.Known id → ∃ block diff carry totalFee discarded,
    ng.totalDiffOf id = some (.ok (block, diff, carry, totalFee, discarded)) ∧
      block.transactionData ++ discarded.flatMap MicroBlock.transactionData = ng.transactions) ∧
  (¬ng.Known id → ng.totalDiffOf id = none)

omit [BlockSerializer] in
/-- The transactions after a part of the liquid block read the same with the newest micro-block
first. -/
def ReadsBothWays (ng : NgState) (id : BlockId) : Prop :=
  (ng.microBlocksAfter id).reverse.flatMap MicroBlock.transactionData =
    (ng.microBlocksAfter id).flatMap MicroBlock.transactionData

omit [BlockSerializer] in
/-- Where no transaction repeats, only one of the micro-blocks may have any. -/
theorem readsBothWays_iff {id : BlockId} (h : ng.transactions.Nodup) :
    ng.ReadsBothWays id ↔
      ((ng.microBlocksAfter id).filter fun m => m.transactionData ≠ []).length ≤ 1 := by
  refine flatMap_reverse_eq_iff (h.sublist ?_)
  rw [transactions_eq]
  refine List.Sublist.trans ?_ (List.sublist_append_right _ _)
  refine List.Sublist.flatMap ?_ _
  unfold microBlocksAfter
  split
  · exact List.Sublist.refl _
  · exact (List.tail_sublist _).trans (List.dropWhile_sublist _)

theorem totalDiffOf_eq_some {id : BlockId} {block : Block} {discarded : List MicroBlock}
    (hforge : ng.forgeBlock id = some (block, discarded))
    {r : Block × Diff × Long × Long × List MicroBlock} :
    ng.totalDiffOf id = some (.ok r) ↔
      ∃ d, ng.diffFor id = .ok d ∧ r = (block, d.1, d.2.1, d.2.2, discarded) := by
  unfold totalDiffOf
  rw [hforge, Option.map_some, Option.some.injEq, Validation.bind_eq_ok]
  constructor
  · rintro ⟨d, hd, hr⟩
    exact ⟨d, hd, (Except.ok.inj hr).symm⟩
  · rintro ⟨d, hd, rfl⟩
    exact ⟨d, hd, rfl⟩

/-- A fork is booked exactly when there is an accumulated diff, and what is discarded comes in the
order of the chain. -/
theorem bookkept_iff_of_forgeBlock (hrecorded : ng.Recorded) {id : BlockId} {block : Block}
    {discarded : List MicroBlock} (hknown : ng.Known id)
    (hforge : ng.forgeBlock id = some (block, discarded)) :
    ng.Bookkept id ↔ Walk.Ends ng.reference id ∧
      block.transactionData ++ discarded.flatMap MicroBlock.transactionData = ng.transactions := by
  rw [← diffFor_isOk_iff hrecorded]
  constructor
  · intro h
    obtain ⟨forged, diff, carry, totalFee, given, htotal, horder⟩ := h.1 hknown
    obtain ⟨d, hd, heq⟩ := (totalDiffOf_eq_some hforge).mp htotal
    rw [Prod.mk.injEq, Prod.mk.injEq, Prod.mk.injEq, Prod.mk.injEq] at heq
    obtain ⟨rfl, -, -, -, rfl⟩ := heq
    exact ⟨⟨d, hd⟩, horder⟩
  · rintro ⟨⟨d, hd⟩, horder⟩
    refine ⟨fun _ => ⟨block, d.1, d.2.1, d.2.2, discarded, ?_, horder⟩, absurd hknown⟩
    exact (totalDiffOf_eq_some hforge).mpr ⟨d, hd, rfl⟩

/-! ## 4. Every liquid block -/

omit [BlockSerializer] in
/-- `new NgState`: a key block without micro-blocks. -/
def ofBase (base : Block) (baseBlockDiff : Diff) (baseBlockCarry baseBlockTotalFee : Long)
    (approvedFeatures : Finset Short) (reward : Option Long)
    (leasesToCancel : FiniteMap ByteStr Diff) : NgState :=
  ⟨base, baseBlockDiff, baseBlockCarry, baseBlockTotalFee, approvedFeatures, reward,
    leasesToCancel, ∅, []⟩

omit [BlockSerializer] in
/-- A liquid block as the updater makes it: the key block, and one micro-block after another. -/
inductive Grown : NgState → Prop where
  | base (base : Block) (diff : Diff) (carry totalFee : Long) (approvedFeatures : Finset Short)
      (reward : Option Long) (leasesToCancel : FiniteMap ByteStr Diff) :
    Grown (ofBase base diff carry totalFee approvedFeatures reward leasesToCancel)
  | append {ng : NgState} (m : MicroBlock) (diff : Diff) (carry totalFee : Long) :
    Grown ng → Grown (ng.append m diff carry totalFee)

omit [BlockSerializer] in
theorem Grown.recorded (h : Grown ng) : ng.Recorded := by
  induction h with
  | base => exact fun m hm => absurd hm List.not_mem_nil
  | append m diff carry totalFee _ ih => exact ih.append m diff carry totalFee

/-- **The bookkeeping of forks**: what is given back is what was taken, in its order, unless
several micro-blocks are discarded at once for a micro-block: those are given back newest first,
so their transactions have to read the same in both orders. -/
theorem totalDiffOf_bookkept_iff (h : Grown ng) (id : BlockId) :
    ng.Bookkept id ↔
      (ng.Known id → Walk.Ends ng.reference id ∧ (id = ng.base.uniqueId ∨ ng.ReadsBothWays id)) := by
  by_cases hknown : ng.Known id
  · by_cases hbase : id = ng.base.uniqueId
    · subst hbase
      rw [bookkept_iff_of_forgeBlock h.recorded hknown forgeBlock_base, ← transactions_eq]
      exact ⟨fun hends _ => ⟨hends.1, .inl rfl⟩, fun hends => ⟨(hends hknown).1, rfl⟩⟩
    · obtain ⟨before, m, hsplit, hbefore, hm⟩ := microBlocks_split (Ne.symm hbase) hknown
      have hforge := forgeBlock_micro (Ne.symm hbase) hsplit hbefore hm
      rw [bookkept_iff_of_forgeBlock h.recorded hknown hforge, transactions_eq, hsplit]
      -- both sides start with what the forged block keeps
      have horder : (Block.create ng.base (ng.base.transactionData ++
            (before.flatMap MicroBlock.transactionData ++ m.transactionData)) id).transactionData ++
            (ng.microBlocksAfter id).reverse.flatMap MicroBlock.transactionData =
          ng.base.transactionData ++
            (before ++ m :: ng.microBlocksAfter id).flatMap MicroBlock.transactionData ↔
          ng.ReadsBothWays id := by
        change (ng.base.transactionData ++ (before.flatMap MicroBlock.transactionData ++
          m.transactionData)) ++ _ = _ ↔ _
        rw [List.flatMap_append, List.flatMap_cons, ← List.append_assoc, ← List.append_assoc,
          ← List.append_assoc, List.append_right_inj]
        rfl
      rw [horder]
      exact ⟨fun hends _ => ⟨hends.1, .inr hends.2⟩,
        fun hends => ⟨(hends hknown).1, (hends hknown).2.resolve_left hbase⟩⟩
  · refine iff_of_true ⟨fun hid => absurd hid hknown, fun _ => ?_⟩ fun hid => absurd hid hknown
    rw [totalDiffOf, forgeBlock_unknown hknown]
    rfl

end

end NgState

namespace Devnet

/-- A Waves from one account to another. -/
def sendWaves (sender recipient : Account) : Transaction :=
  .transfer
    { version := 1
      sender := sender.publicKey
      recipient := .address recipient.address
      assetId := .Waves
      amount := 100000000
      feeAssetId := .Waves
      fee := 100000
      attachment := []
      timestamp := 1500000000000
      proofs := ⟨[]⟩ }

def microBlockOn (prevResBlockSig totalResBlockSig : BlockId)
    (transactionData : List Transaction) : MicroBlock :=
  ⟨3, miner.publicKey, transactionData, prevResBlockSig, totalResBlockSig, totalResBlockSig⟩

def firstMicroId : BlockId := List.replicate 64 1
def secondMicroId : BlockId := List.replicate 64 2
def thirdMicroId : BlockId := List.replicate 64 3

def secondMicroBlock : MicroBlock :=
  microBlockOn firstMicroId secondMicroId [sendWaves alice bob]

/-- Bob sends on what he has got in the micro-block before. -/
def thirdMicroBlock : MicroBlock :=
  microBlockOn secondMicroId thirdMicroId [sendWaves bob alice]

def emptyLiquidBlock : NgState := .ofBase emptyBlock Diff.empty 0 0 ∅ none ∅

def threeMicroBlocks : NgState :=
  ((emptyLiquidBlock.append (microBlockOn emptyBlock.signature firstMicroId []) Diff.empty 0 0).append
    secondMicroBlock Diff.empty 0 0).append thirdMicroBlock Diff.empty 0 0

theorem threeMicroBlocks_grown : threeMicroBlocks.Grown :=
  .append _ _ _ _ (.append _ _ _ _ (.append _ _ _ _ (.base _ _ _ _ _ _ _)))

theorem threeMicroBlocks_known : threeMicroBlocks.Known firstMicroId :=
  .inr ⟨microBlockOn emptyBlock.signature firstMicroId [], by decide, rfl⟩

end Devnet

section
open Devnet

local instance forkingSerializer : BlockSerializer := KnownAnswers.blockSerializer {}

theorem totalDiffOf_bookkept_iff_threeMicroBlocks :
    threeMicroBlocks.Bookkept firstMicroId ↔
      (threeMicroBlocks.Known firstMicroId →
        Walk.Ends threeMicroBlocks.reference firstMicroId ∧
          (firstMicroId = threeMicroBlocks.base.uniqueId ∨
            threeMicroBlocks.ReadsBothWays firstMicroId)) :=
  NgState.totalDiffOf_bookkept_iff threeMicroBlocks_grown firstMicroId

/-- A fork to the first of three micro-blocks gives the last transfer back before the one it
spends. -/
theorem totalDiffOf_newestFirst :
    ¬∀ ng : NgState, ng.Grown → ∀ id, ng.Bookkept id := by
  intro h
  have hbooked := h threeMicroBlocks threeMicroBlocks_grown firstMicroId
  obtain ⟨block, discarded, hforge, hkept, hgiven⟩ :
      ∃ block discarded, threeMicroBlocks.forgeBlock firstMicroId = some (block, discarded) ∧
        block.transactionData = [] ∧ discarded = [thirdMicroBlock, secondMicroBlock] :=
    ⟨_, _, rfl, by decide, by decide⟩
  rw [NgState.bookkept_iff_of_forgeBlock threeMicroBlocks_grown.recorded threeMicroBlocks_known
    hforge, hkept, hgiven] at hbooked
  exact absurd hbooked.2 (by decide)

end

end WavesNode
