/-
The caches of the liquid block.

`NgState` remembers accumulated diffs, forged blocks and its best block. A micro-block that
is appended drops all forged blocks and the best block, but of the diffs only its own: those
of other parts are kept, as their walks are not expected to meet the new micro-block.

Entries may also go at any moment, by their age or number; here a policy of its own for each
request says what is retained (`Memo.Eviction`), at each lookup and after each entry that is
made, also those made half-way down a walk.

An answer for an unknown part is remembered like any other. When the part comes, its own
entry is dropped; but an entry of a micro-block that refers to it, made before it came, is
not. So the caches are transparent as long as nothing refers to a micro-block before it is
appended (`Unreferenced`), which is so whenever each micro-block is on the last one and has a
new identifier (`LiquidIds.unreferenced`).
-/
import WavesNode.ForgedBlocks
import WavesNode.LiquidChain

set_option autoImplicit false

namespace WavesNode

section

variable [BlockSerializer]

/-! ## 1. The caches -/

/-- `internalCaches`. -/
structure InternalCaches where
  blockDiffCache : FiniteMap BlockId (Diff × Long × Long)
  forgedBlockCache : FiniteMap BlockId (Option (Block × List MicroBlock))
  bestBlockCache : Option Block

namespace InternalCaches

omit [BlockSerializer]

def empty : InternalCaches := ⟨∅, ∅, none⟩

def invalidate (caches : InternalCaches) (newBlockId : BlockId) : InternalCaches where
  blockDiffCache := caches.blockDiffCache.erase newBlockId
  forgedBlockCache := ∅
  bestBlockCache := none

end InternalCaches

/-- What the two tables forget while a request is served. -/
structure Evictions where
  diffs : Memo.Eviction BlockId (Diff × Long × Long)
  forged : Memo.Eviction BlockId (Option (Block × List MicroBlock))

/-- The liquid block as the source has it, with its caches. -/
structure CachedNgState where
  ng : NgState
  internalCaches : InternalCaches

namespace CachedNgState

omit [BlockSerializer] in
/-- The walk of `diffFor` through the cache. A load that fails stores nothing; one that comes
back to its own key is an exception. -/
def diffForWithin (ng : NgState) (evict : Memo.Eviction BlockId (Diff × Long × Long)) :
    (fuel : ℕ) → FiniteMap BlockId (Diff × Long × Long) → BlockId →
      Validation (Diff × Long × Long) × FiniteMap BlockId (Diff × Long × Long)
  | fuel, cache, totalResBlockSig =>
    if totalResBlockSig = ng.base.uniqueId then
      (.ok (ng.baseBlockDiff, ng.baseBlockCarry, ng.baseBlockTotalFee), cache)
    else
      let retained := evict.retain (2 * fuel) cache
      match retained.get? totalResBlockSig with
      | some known => (.ok known, retained)
      | none =>
        match ng.microBlocks.find? fun m => m.totalResBlockSig = totalResBlockSig with
        | none =>
          (.ok (Diff.empty, 0, 0),
            evict.retain (2 * fuel + 1) (retained.insert totalResBlockSig (Diff.empty, 0, 0)))
        | some current =>
          match fuel with
          | 0 => (.throwing "StackOverflowError", retained)
          | fuel + 1 =>
            match diffForWithin ng evict fuel retained current.prevResBlockSig with
            | (.error e, below) => (.error e, below)
            | (.ok (prevDiff, prevCarry, prevTotalFee), below) =>
              match ng.microDiffs.get? totalResBlockSig with
              | none => (.throwing "NoSuchElementException", below)
              | some micro =>
                let answer := (prevDiff.combine micro.diff, prevCarry + micro.carryFee,
                  prevTotalFee + micro.totalFee)
                (.ok answer,
                  evict.retain (2 * (fuel + 1) + 1) (below.insert totalResBlockSig answer))

omit [BlockSerializer] in
def diffFor (c : CachedNgState) (evict : Evictions) (totalResBlockSig : BlockId) :
    Validation (Diff × Long × Long) × CachedNgState :=
  let (answer, cache) := diffForWithin c.ng evict.diffs c.ng.microBlocks.length
    c.internalCaches.blockDiffCache totalResBlockSig
  (answer, { c with internalCaches := { c.internalCaches with blockDiffCache := cache } })

def forgeBlock (c : CachedNgState) (evict : Evictions) (blockId : BlockId) :
    Option (Block × List MicroBlock) × CachedNgState :=
  let retained := evict.forged.retain 0 c.internalCaches.forgedBlockCache
  match retained.get? blockId with
  | some known =>
    (known, { c with internalCaches := { c.internalCaches with forgedBlockCache := retained } })
  | none =>
    let answer := c.ng.forgeBlock blockId
    let cache := evict.forged.retain 1 (retained.insert blockId answer)
    (answer, { c with internalCaches := { c.internalCaches with forgedBlockCache := cache } })

def totalDiffOf (c : CachedNgState) (evict : Evictions) (id : BlockId) :
    Option (Validation (Block × Diff × Long × Long × List MicroBlock)) × CachedNgState :=
  match c.forgeBlock evict id with
  | (none, c) => (none, c)
  | (some (block, discarded), c) =>
    let (answer, c) := c.diffFor evict id
    (some do
      let (diff, carry, totalFee) ← answer
      .ok (block, diff, carry, totalFee, discarded), c)

def bestLiquidBlock (c : CachedNgState) : Block × CachedNgState :=
  match c.ng.microBlocks with
  | [] => (c.ng.base, c)
  | head :: _ =>
    match c.internalCaches.bestBlockCache with
    | some cachedBlock => (cachedBlock, c)
    | none =>
      let block := Block.create c.ng.base c.ng.transactions head.totalResBlockSig
      (block, { c with internalCaches := { c.internalCaches with bestBlockCache := some block } })

omit [BlockSerializer] in
def bestLiquidDiff (c : CachedNgState) (evict : Evictions) : Validation Diff × CachedNgState :=
  let (answer, c) := c.diffFor evict c.ng.bestLiquidBlockId
  (Prod.fst <$> answer, c)

omit [BlockSerializer] in
def append (c : CachedNgState) (m : MicroBlock) (diff : Diff)
    (microblockCarry microblockTotalFee : Long) : CachedNgState where
  ng := c.ng.append m diff microblockCarry microblockTotalFee
  internalCaches := c.internalCaches.invalidate m.totalResBlockSig

end CachedNgState

/-! ## 2. Requests, with the caches and without them -/

inductive Query where
  | diffFor (totalResBlockSig : BlockId)
  | totalDiffOf (id : BlockId)
  | bestLiquidBlock
  | bestLiquidDiff

inductive Answer where
  | diffFor (answer : Validation (Diff × Long × Long))
  | totalDiffOf (answer : Option (Validation (Block × Diff × Long × Long × List MicroBlock)))
  | bestLiquidBlock (block : Block)
  | bestLiquidDiff (answer : Validation Diff)

inductive Request where
  | append (m : MicroBlock) (diff : Diff) (microblockCarry microblockTotalFee : Long)
  | query (q : Query)

/-- What is answered with the caches disabled. -/
def NgState.answer (ng : NgState) : Query → Answer
  | .diffFor id => .diffFor (ng.diffFor id)
  | .totalDiffOf id => .totalDiffOf (ng.totalDiffOf id)
  | .bestLiquidBlock => .bestLiquidBlock ng.bestLiquidBlock
  | .bestLiquidDiff => .bestLiquidDiff (Prod.fst <$> ng.bestLiquidDiffAndFees)

def NgState.answers (ng : NgState) : List Request → List Answer
  | [] => []
  | .append m diff carry totalFee :: rest => (ng.append m diff carry totalFee).answers rest
  | .query q :: rest => ng.answer q :: ng.answers rest

namespace CachedNgState

def answer (c : CachedNgState) (evict : Evictions) : Query → Answer × CachedNgState
  | .diffFor id => ((c.diffFor evict id).map .diffFor fun c => c)
  | .totalDiffOf id => ((c.totalDiffOf evict id).map .totalDiffOf fun c => c)
  | .bestLiquidBlock => (c.bestLiquidBlock.map .bestLiquidBlock fun c => c)
  | .bestLiquidDiff => ((c.bestLiquidDiff evict).map .bestLiquidDiff fun c => c)

/-- What is answered with the caches, each request with evictions of its own. -/
def answers (c : CachedNgState) : List (Request × Evictions) → List Answer
  | [] => []
  | (.append m diff carry totalFee, _) :: rest => (c.append m diff carry totalFee).answers rest
  | (.query q, evict) :: rest => (c.answer evict q).1 :: (c.answer evict q).2.answers rest

end CachedNgState

/-! ## 3. What a new micro-block changes -/

namespace NgState

omit [BlockSerializer]

variable {ng : NgState} {m : MicroBlock}

/-- Nothing that is there refers to the micro-block, nor does it to itself; a reference to the
key block does not count. -/
def Unreferenced (ng : NgState) (m : MicroBlock) : Prop :=
  ∀ m' ∈ m :: ng.microBlocks, m'.prevResBlockSig = m.totalResBlockSig →
    m.totalResBlockSig = ng.base.uniqueId

instance : Decidable (ng.Unreferenced m) :=
  inferInstanceAs (Decidable (∀ m' ∈ m :: ng.microBlocks,
    m'.prevResBlockSig = m.totalResBlockSig → m.totalResBlockSig = ng.base.uniqueId))

theorem exists_of_reference {id prev : BlockId} (h : ng.reference id = some prev) :
    ∃ m ∈ ng.microBlocks, m.prevResBlockSig = prev := by
  unfold reference at h
  split at h
  · cases h
  · obtain ⟨m, hm, hprev⟩ := Option.map_eq_some_iff.mp h
    exact ⟨m, List.mem_of_find?_eq_some hm, hprev⟩

theorem reference_append (diff : Diff) (carry totalFee : Long) {id : BlockId}
    (hid : id = m.totalResBlockSig → id = ng.base.uniqueId) :
    (ng.append m diff carry totalFee).reference id = ng.reference id := by
  unfold reference
  by_cases hbase : id = ng.base.uniqueId
  · rw [if_pos hbase, if_pos (show id = (ng.append m diff carry totalFee).base.uniqueId from hbase)]
  · rw [if_neg hbase, if_neg (show ¬id = (ng.append m diff carry totalFee).base.uniqueId from hbase)]
    change ((m :: ng.microBlocks).find? _).map _ = _
    rw [List.find?_cons_of_neg]
    intro heq
    exact hbase (hid (of_decide_eq_true heq).symm)

theorem reference_append_self (diff : Diff) (carry totalFee : Long)
    (hbase : m.totalResBlockSig ≠ ng.base.uniqueId) :
    (ng.append m diff carry totalFee).reference m.totalResBlockSig = some m.prevResBlockSig := by
  unfold reference
  rw [if_neg (show ¬m.totalResBlockSig = (ng.append m diff carry totalFee).base.uniqueId from hbase)]
  change ((m :: ng.microBlocks).find? _).map _ = _
  have hfind : (m :: ng.microBlocks).find?
      (fun m' => decide (m'.totalResBlockSig = m.totalResBlockSig)) = some m :=
    List.find?_cons_of_pos (decide_eq_true rfl)
  rw [hfind]
  rfl

/-- A walk that does not start at the new micro-block does not come to it. -/
theorem Unreferenced.keeps (h : ng.Unreferenced m) {id prev : BlockId}
    (hprev : ng.reference id = some prev) :
    prev = m.totalResBlockSig → prev = ng.base.uniqueId := by
  intro heq
  obtain ⟨m', hm', href⟩ := exists_of_reference hprev
  rw [heq]
  exact h m' (List.mem_cons_of_mem m hm') (href.trans heq)

/-- Every walk ends. -/
def Grounded (ng : NgState) : Prop := ∀ id, Walk.Ends ng.reference id

theorem Grounded.append (hg : ng.Grounded) (h : ng.Unreferenced m) (diff : Diff)
    (carry totalFee : Long) : (ng.append m diff carry totalFee).Grounded := by
  -- first from where the new micro-block is not met
  have hold : ∀ id, (id = m.totalResBlockSig → id = ng.base.uniqueId) →
      Walk.Ends (ng.append m diff carry totalFee).reference id := by
    intro id hid
    obtain ⟨n, hn⟩ := hg id
    refine ⟨n, (Walk.endsAfter_congr (p := fun id => id = m.totalResBlockSig → id = ng.base.uniqueId)
      ?_ ?_ hid).mpr hn⟩
    · exact fun id hid => reference_append diff carry totalFee hid
    · exact fun id prev _ hprev => h.keeps hprev
  intro id
  by_cases hid : id = m.totalResBlockSig → id = ng.base.uniqueId
  · exact hold id hid
  · obtain ⟨rfl, hbase⟩ := Classical.not_imp.mp hid
    rw [Walk.ends_iff (reference_append_self diff carry totalFee hbase)]
    refine hold _ fun hprev => ?_
    rw [hprev]
    exact h m List.mem_cons_self hprev

/-- **Old answers stay**: the accumulated diff of any other part is what it was. -/
theorem diffFor_append (hg : ng.Grounded) (h : ng.Unreferenced m) (diff : Diff)
    (carry totalFee : Long) {id : BlockId}
    (hid : id = m.totalResBlockSig → id = ng.base.uniqueId) :
    (ng.append m diff carry totalFee).diffFor id = ng.diffFor id := by
  obtain ⟨n, hn⟩ := hg id
  induction n generalizing id with
  | zero =>
    rw [diffFor_of_ends hn, diffFor_of_ends ((reference_append diff carry totalFee hid).trans hn)]
    rfl
  | succ n ih =>
    obtain ⟨prev, hprev, hrest⟩ := hn
    have hne : id ≠ m.totalResBlockSig := by
      intro heq
      have hbase := hid heq
      rw [reference, if_pos hbase] at hprev
      cases hprev
    have hstack : (ng.append m diff carry totalFee).stackDiff id = ng.stackDiff id := by
      funext below
      unfold stackDiff
      change Validation.get _ ((ng.microDiffs.insert m.totalResBlockSig _).get? id) >>= _ = _
      rw [FiniteMap.get?_insert, if_neg hne]
    rw [diffFor_of_reference hprev,
      diffFor_of_reference ((reference_append diff carry totalFee hid).trans hprev),
      ih (h.keeps hprev) hrest, hstack]

end NgState

/-! ## 4. Coherence -/

namespace CachedNgState

/-- Every entry is what would be computed now. -/
structure Coherent (c : CachedNgState) : Prop where
  grounded : c.ng.Grounded
  diffs : Memo.Sound (fun id r => c.ng.diffFor id = .ok r) c.internalCaches.blockDiffCache
  forged : Memo.Sound (fun id r => c.ng.forgeBlock id = r) c.internalCaches.forgedBlockCache
  best : ∀ block, c.internalCaches.bestBlockCache = some block → c.ng.bestLiquidBlock = block

section
omit [BlockSerializer]

variable {ng : NgState} {evict : Memo.Eviction BlockId (Diff × Long × Long)} {fuel : ℕ}
  {cache : FiniteMap BlockId (Diff × Long × Long)} {id : BlockId}

theorem diffForWithin_base (hbase : id = ng.base.uniqueId) :
    diffForWithin ng evict fuel cache id = (.ok (ng.ground id), cache) := by
  unfold diffForWithin NgState.ground
  rw [if_pos hbase, if_pos hbase]

theorem diffForWithin_hit (hbase : id ≠ ng.base.uniqueId) {known : Diff × Long × Long}
    (hknown : (evict.retain (2 * fuel) cache).get? id = some known) :
    diffForWithin ng evict fuel cache id = (.ok known, evict.retain (2 * fuel) cache) := by
  unfold diffForWithin
  rw [if_neg hbase]
  simp only [hknown]

theorem diffForWithin_unknown (hbase : id ≠ ng.base.uniqueId)
    (hmiss : (evict.retain (2 * fuel) cache).get? id = none) (href : ng.reference id = none) :
    diffForWithin ng evict fuel cache id = (.ok (ng.ground id),
      evict.retain (2 * fuel + 1) ((evict.retain (2 * fuel) cache).insert id (ng.ground id))) := by
  unfold NgState.reference at href
  rw [if_neg hbase, Option.map_eq_none_iff] at href
  unfold diffForWithin NgState.ground
  rw [if_neg hbase, if_neg hbase]
  simp only [hmiss, href]

/-- A load: the answer for the part below, and the micro-block's own diff on it. -/
theorem diffForWithin_load (hbase : id ≠ ng.base.uniqueId)
    (hmiss : (evict.retain (2 * (fuel + 1)) cache).get? id = none) {prev : BlockId}
    (href : ng.reference id = some prev) {answer : Validation (Diff × Long × Long)}
    {below : FiniteMap BlockId (Diff × Long × Long)}
    (hbelow : diffForWithin ng evict fuel (evict.retain (2 * (fuel + 1)) cache) prev =
      (answer, below)) :
    diffForWithin ng evict (fuel + 1) cache id =
      match answer >>= ng.stackDiff id with
      | .error e => (.error e, below)
      | .ok r => (.ok r, evict.retain (2 * (fuel + 1) + 1) (below.insert id r)) := by
  unfold NgState.reference at href
  rw [if_neg hbase] at href
  obtain ⟨current, hcurrent, rfl⟩ := Option.map_eq_some_iff.mp href
  rw [diffForWithin, if_neg hbase]
  simp only [hmiss, hcurrent, hbelow]
  cases answer with
  | error e => rfl
  | ok r =>
    rw [Validation.ok_bind, NgState.stackDiff]
    cases ng.microDiffs.get? id with
    | none => rfl
    | some micro => rfl

/-- **The walk through the cache** answers what the walk without it does, whatever is forgotten
on the way, and makes only entries that are right. -/
theorem diffForWithin_spec {n : ℕ} (hends : Walk.EndsAfter ng.reference n id) (hfuel : n ≤ fuel)
    (hcache : Memo.Sound (fun id r => ng.diffFor id = .ok r) cache) :
    (diffForWithin ng evict fuel cache id).1 = ng.diffFor id ∧
      Memo.Sound (fun id r => ng.diffFor id = .ok r) (diffForWithin ng evict fuel cache id).2 := by
  induction n generalizing fuel cache id with
  | zero =>
    have hanswer := NgState.diffFor_of_ends hends
    by_cases hbase : id = ng.base.uniqueId
    · rw [diffForWithin_base hbase]
      exact ⟨hanswer.symm, hcache⟩
    · have hretained := hcache.retain evict (2 * fuel)
      cases hlookup : (evict.retain (2 * fuel) cache).get? id with
      | some known =>
        rw [diffForWithin_hit hbase hlookup]
        exact ⟨(hretained id known hlookup).symm, hretained⟩
      | none =>
        rw [diffForWithin_unknown hbase hlookup hends]
        exact ⟨hanswer.symm, (hretained.insert hanswer).retain evict _⟩
  | succ n ih =>
    obtain ⟨fuel, rfl⟩ : ∃ f, fuel = f + 1 := ⟨fuel - 1, by omega⟩
    obtain ⟨prev, hprev, hrest⟩ := hends
    have hbase : id ≠ ng.base.uniqueId := by
      intro hbase
      rw [NgState.reference, if_pos hbase] at hprev
      cases hprev
    have hretained := hcache.retain evict (2 * (fuel + 1))
    cases hlookup : (evict.retain (2 * (fuel + 1)) cache).get? id with
    | some known =>
      rw [diffForWithin_hit hbase hlookup]
      exact ⟨(hretained id known hlookup).symm, hretained⟩
    | none =>
      obtain ⟨hanswer, hbelow⟩ := ih hrest (show n ≤ fuel by omega) hretained
      have hdiff := NgState.diffFor_of_reference hprev
      rw [← hanswer] at hdiff
      rw [diffForWithin_load hbase hlookup hprev rfl, ← hdiff]
      cases hr : ng.diffFor id with
      | error e => exact ⟨rfl, hbelow⟩
      | ok r => exact ⟨rfl, (hbelow.insert hr).retain evict _⟩

end

variable {c : CachedNgState}

/-- A new liquid block has no entries. -/
theorem coherent_ofBase (base : Block) (diff : Diff) (carry totalFee : Long)
    (approvedFeatures : Finset Short) (reward : Option Long)
    (leasesToCancel : FiniteMap ByteStr Diff) :
    Coherent ⟨.ofBase base diff carry totalFee approvedFeatures reward leasesToCancel, .empty⟩ where
  grounded id := by
    refine Walk.ends_of_none ?_
    unfold NgState.reference
    split <;> rfl
  diffs := Memo.sound_empty
  forged := Memo.sound_empty
  best block h := by cases h

/-- **A micro-block comes**: what is kept is still right. -/
theorem Coherent.append (hc : c.Coherent) {m : MicroBlock} (hm : c.ng.Unreferenced m) (diff : Diff)
    (carry totalFee : Long) : (c.append m diff carry totalFee).Coherent where
  grounded := hc.grounded.append hm diff carry totalFee
  diffs := by
    refine hc.diffs.erase ?_
    intro id r hid hr
    rw [← hr]
    exact NgState.diffFor_append hc.grounded hm diff carry totalFee fun heq => absurd heq hid
  forged := Memo.sound_empty
  best block h := by cases h

theorem Coherent.diffFor (hc : c.Coherent) (evict : Evictions) (id : BlockId) :
    (c.diffFor evict id).1 = c.ng.diffFor id ∧ (c.diffFor evict id).2.Coherent ∧
      (c.diffFor evict id).2.ng = c.ng := by
  obtain ⟨n, hn⟩ := hc.grounded id
  have hfuel : n ≤ c.ng.microBlocks.length := by
    rw [← List.length_map MicroBlock.totalResBlockSig]
    exact Walk.endsAfter_le_length (fun z => NgState.mem_of_reference) hn
  have hspec := @diffForWithin_spec c.ng evict.diffs _ _ _ _ hn hfuel hc.diffs
  exact ⟨hspec.1, ⟨hc.grounded, hspec.2, hc.forged, hc.best⟩, rfl⟩

theorem Coherent.forgeBlock (hc : c.Coherent) (evict : Evictions) (id : BlockId) :
    (c.forgeBlock evict id).1 = c.ng.forgeBlock id ∧ (c.forgeBlock evict id).2.Coherent ∧
      (c.forgeBlock evict id).2.ng = c.ng := by
  have hretained := hc.forged.retain evict.forged 0
  unfold CachedNgState.forgeBlock
  dsimp only
  cases hlookup : (evict.forged.retain 0 c.internalCaches.forgedBlockCache).get? id with
  | some known =>
    exact ⟨(hretained id known hlookup).symm, ⟨hc.grounded, hc.diffs, hretained, hc.best⟩, rfl⟩
  | none =>
    have hcache := (hretained.insert (k := id) rfl).retain evict.forged 1
    exact ⟨rfl, ⟨hc.grounded, hc.diffs, hcache, hc.best⟩, rfl⟩

theorem Coherent.totalDiffOf (hc : c.Coherent) (evict : Evictions) (id : BlockId) :
    (c.totalDiffOf evict id).1 = c.ng.totalDiffOf id ∧ (c.totalDiffOf evict id).2.Coherent ∧
      (c.totalDiffOf evict id).2.ng = c.ng := by
  obtain ⟨hforge, hforged, hng⟩ := hc.forgeBlock evict id
  unfold CachedNgState.totalDiffOf NgState.totalDiffOf
  rw [← hforge]
  rcases hserved : c.forgeBlock evict id with ⟨_ | ⟨block, discarded⟩, c'⟩
  all_goals rw [hserved] at hforged hng
  · exact ⟨rfl, hforged, hng⟩
  · obtain ⟨hanswer, hcoherent, hsame⟩ := hforged.diffFor evict id
    dsimp only at hng hsame hanswer hcoherent ⊢
    rw [hng] at hanswer
    rw [hanswer]
    exact ⟨rfl, hcoherent, hsame.trans hng⟩

theorem Coherent.bestLiquidBlock (hc : c.Coherent) :
    c.bestLiquidBlock.1 = c.ng.bestLiquidBlock ∧ c.bestLiquidBlock.2.Coherent ∧
      c.bestLiquidBlock.2.ng = c.ng := by
  unfold CachedNgState.bestLiquidBlock
  split
  · rename_i hmicros
    refine ⟨?_, hc, rfl⟩
    rw [NgState.bestLiquidBlock, hmicros]
  · rename_i head rest hmicros
    have hforged : c.ng.bestLiquidBlock =
        Block.create c.ng.base c.ng.transactions head.totalResBlockSig := by
      rw [NgState.bestLiquidBlock, hmicros]
    split
    · rename_i cachedBlock hcached
      exact ⟨(hc.best cachedBlock hcached).symm, hc, rfl⟩
    · refine ⟨hforged.symm, ⟨hc.grounded, hc.diffs, hc.forged, ?_⟩, rfl⟩
      intro block hblock
      rw [← Option.some.inj hblock]
      exact hforged

/-- **One request**: the answer is the one without the caches, and they stay right. -/
theorem Coherent.answer (hc : c.Coherent) (evict : Evictions) (q : Query) :
    (c.answer evict q).1 = c.ng.answer q ∧ (c.answer evict q).2.Coherent ∧
      (c.answer evict q).2.ng = c.ng := by
  cases q with
  | diffFor id =>
    obtain ⟨hanswer, hcoherent, hng⟩ := hc.diffFor evict id
    exact ⟨congrArg Answer.diffFor hanswer, hcoherent, hng⟩
  | totalDiffOf id =>
    obtain ⟨hanswer, hcoherent, hng⟩ := hc.totalDiffOf evict id
    exact ⟨congrArg Answer.totalDiffOf hanswer, hcoherent, hng⟩
  | bestLiquidBlock =>
    obtain ⟨hanswer, hcoherent, hng⟩ := hc.bestLiquidBlock
    exact ⟨congrArg Answer.bestLiquidBlock hanswer, hcoherent, hng⟩
  | bestLiquidDiff =>
    obtain ⟨hanswer, hcoherent, hng⟩ := hc.diffFor evict c.ng.bestLiquidBlockId
    exact ⟨congrArg (fun r => Answer.bestLiquidDiff (Prod.fst <$> r)) hanswer, hcoherent, hng⟩

/-! ## 5. Whole interleavings -/

omit [BlockSerializer] in
/-- No micro-block of the requests is referred to before it is appended. -/
def Admissible (ng : NgState) : List Request → Prop
  | [] => True
  | .append m diff carry totalFee :: rest =>
    ng.Unreferenced m ∧ Admissible (ng.append m diff carry totalFee) rest
  | .query _ :: rest => Admissible ng rest

theorem Coherent.answers (hc : c.Coherent) {requests : List (Request × Evictions)}
    (h : Admissible c.ng (requests.map Prod.fst)) :
    c.answers requests = c.ng.answers (requests.map Prod.fst) := by
  -- one request after the other, by the coherence of what it leaves
  induction requests generalizing c with
  | nil => rfl
  | cons request rest ih =>
    rcases request with ⟨⟨m, diff, carry, totalFee⟩ | q, evict⟩
    · exact ih (hc.append h.1 diff carry totalFee) h.2
    · obtain ⟨hanswer, hcoherent, hng⟩ := hc.answer evict q
      change (c.answer evict q).1 :: (c.answer evict q).2.answers rest = _
      rw [ih hcoherent (by rw [hng]; exact h), hanswer, hng]
      rfl

/-- **The caches are transparent**: in every interleaving of appends and queries, whatever the
caches forget, each query is answered as without them, if no micro-block is referred to before
it is appended. -/
theorem answers_eq (base : Block) (diff : Diff) (carry totalFee : Long)
    (approvedFeatures : Finset Short) (reward : Option Long)
    (leasesToCancel : FiniteMap ByteStr Diff) (requests : List (Request × Evictions))
    (h : Admissible (.ofBase base diff carry totalFee approvedFeatures reward leasesToCancel)
      (requests.map Prod.fst)) :
    answers ⟨.ofBase base diff carry totalFee approvedFeatures reward leasesToCancel, .empty⟩
        requests =
      (NgState.ofBase base diff carry totalFee approvedFeatures reward leasesToCancel).answers
        (requests.map Prod.fst) :=
  (coherent_ofBase base diff carry totalFee approvedFeatures reward leasesToCancel).answers h

end CachedNgState

/-! ## 6. What the updater appends

The updater appends a micro-block on the last one only, and the identifiers of a liquid block
are signatures of different blocks. -/

namespace StoredUpdater

omit [BlockSerializer]

theorem Stacked.mem_ids {baseId : BlockId} {ms : List MicroBlock} (h : Stacked baseId ms) :
    ∀ m ∈ ms, m.prevResBlockSig ∈ ms.map MicroBlock.totalResBlockSig ++ [baseId] := by
  induction ms with
  | nil => exact fun m hm => absurd hm List.not_mem_nil
  | cons newest ms ih =>
    intro m hm
    rcases List.mem_cons.mp hm with rfl | hm
    · rw [h.1]
      cases ms with
      | nil => exact List.mem_append_right _ (List.mem_singleton.mpr rfl)
      | cons below ms => exact List.mem_cons_of_mem _ List.mem_cons_self
    · exact List.mem_cons_of_mem _ (ih h.2 m hm)

/-- A micro-block on the last one, with an identifier of its own, is not referred to yet. -/
theorem LiquidIds.unreferenced {ng : NgState} (h : LiquidIds ng) {m : MicroBlock}
    (hon : ng.bestLiquidBlockId = m.prevResBlockSig)
    (hfresh : ng.contains m.totalResBlockSig = false) : ng.Unreferenced m := by
  intro m' hm' href
  have hknown : m.totalResBlockSig ∈
      ng.microBlocks.map MicroBlock.totalResBlockSig ++ [ng.base.uniqueId] := by
    rw [← href]
    rcases List.mem_cons.mp hm' with rfl | hm'
    · -- the last block is the key block or a micro-block
      rw [← hon, NgState.bestLiquidBlockId]
      cases ng.microBlocks with
      | nil => exact List.mem_append_right _ (List.mem_singleton.mpr rfl)
      | cons newest ms => exact List.mem_cons_self
    · exact h.stacked.mem_ids m' hm'
  rw [h.contains_iff.mpr hknown] at hfresh
  cases hfresh

end StoredUpdater

end

namespace Devnet

def noEvictions : Evictions := ⟨.never, .never⟩

/-- The second micro-block and a look at it, then the first one and another look. -/
def outOfOrder : List (Request × Evictions) :=
  [(.append secondMicroBlock Diff.empty 1 1, noEvictions),
    (.query (.diffFor secondMicroId), noEvictions),
    (.append (microBlockOn emptyBlock.signature firstMicroId []) Diff.empty 10 10, noEvictions),
    (.query (.diffFor secondMicroId), noEvictions)]

/-- The micro-blocks in their order, with a look at each before and after it comes. -/
def inOrder : List (Request × Evictions) :=
  [(.query (.diffFor firstMicroId), noEvictions),
    (.append (microBlockOn emptyBlock.signature firstMicroId []) Diff.empty 10 10, noEvictions),
    (.query (.totalDiffOf secondMicroId), noEvictions),
    (.append secondMicroBlock Diff.empty 1 1, noEvictions),
    (.query (.diffFor secondMicroId), noEvictions)]

/-- The carry of an answer with an accumulated diff. -/
def carryOf : Answer → Option Long
  | .diffFor (.ok (_, carry, _)) => some carry
  | _ => none

end Devnet

section
open Devnet

local instance cachingSerializer : BlockSerializer := KnownAnswers.blockSerializer {}

theorem CachedNgState.answers_eq_inOrder :
    CachedNgState.answers ⟨emptyLiquidBlock, .empty⟩ inOrder =
      emptyLiquidBlock.answers (inOrder.map Prod.fst) :=
  CachedNgState.answers_eq emptyBlock Diff.empty 0 0 ∅ none ∅ inOrder
    ⟨by decide, by decide, trivial⟩

/-- A micro-block that came before the one it refers to is remembered without it. -/
theorem CachedNgState.answers_ne_outOfOrder :
    ¬∀ (base : Block) (diff : Diff) (carry totalFee : Long) (approvedFeatures : Finset Short)
      (reward : Option Long) (leasesToCancel : FiniteMap ByteStr Diff)
      (requests : List (Request × Evictions)),
      CachedNgState.answers
          ⟨.ofBase base diff carry totalFee approvedFeatures reward leasesToCancel, .empty⟩
          requests =
        (NgState.ofBase base diff carry totalFee approvedFeatures reward leasesToCancel).answers
          (requests.map Prod.fst) := by
  intro h
  have hcarries := congrArg (List.map carryOf) (h emptyBlock Diff.empty 0 0 ∅ none ∅ outOfOrder)
  have hrun : (CachedNgState.answers ⟨emptyLiquidBlock, .empty⟩ outOfOrder).map carryOf =
        [some 1, some 1] ∧
      (emptyLiquidBlock.answers (outOfOrder.map Prod.fst)).map carryOf = [some 1, some 11] := by
    decide +kernel
  rw [show NgState.ofBase emptyBlock Diff.empty 0 0 ∅ none ∅ = emptyLiquidBlock from rfl, hrun.1,
    hrun.2] at hcarries
  exact absurd hcarries (by decide)

end

end WavesNode
