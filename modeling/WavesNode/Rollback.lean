/-
What a rollback restores.

A value that a block changes is written to its history by `doAppend` and dropped from it
by `doRollback`, which finds it through an index: the addresses whose Waves changed or
that had a transaction, or the transactions of the block themselves. `Kept` is such a
value with its place in the keys, its index and its cache, and `Kept.Lawful` says what one
append and one discarded block do to it. The three results on top are the same for every
kept value: in any run its history is indexed and its cache is right (`reachable_holds`);
what it was at a height survives later blocks (`grows_asOf`); and so taking those blocks
off gives it back (`doRollback_answer`).

Waves balances are kept by the index of addresses as it is, and so is account data. Asset
balances are not: a block may change an asset balance of an address that is not in its
index. That is the condition of `doRollback_balances`, and without it the answer is wrong
(`doRollback_burnt`).
-/
import WavesNode.DiffRecords
import WavesNode.Devnet

set_option autoImplicit false

namespace WavesNode

namespace LevelDBWriter

variable [Crypto] [PBTransactionSerializer]

/-! ## 1. Kept values -/

section
omit [Crypto] [PBTransactionSerializer]

/-- A value that is kept with its past: its history among the keys, the heights at which a
rollback finds it, its place in a cache, and how it is read. -/
structure Kept (υ β : Type) where
  history : Keys → History υ
  undone : Keys → ℕ → Prop
  cache : LevelDBWriter → Option β
  read : Option υ → β

namespace Kept

variable {υ β : Type} (K : Kept υ β)

/-- What the reader answers: from the cache, and from the keys where it holds nothing. -/
def answer (w : LevelDBWriter) : β := (K.cache w).getD (K.read (K.history w.db).latest)

/-- Up to a height, the history is indexed, and the cache holds the value or nothing. -/
structure Holds (w : LevelDBWriter) (n : ℕ) : Prop where
  tracked : (K.history w.db).Tracked (K.undone w.db) n
  coherent : ∀ v, K.cache w = some v → v = K.read (K.history w.db).latest

end Kept

end

/-- What the operations of the database do to a kept value, where the appended blocks meet
a condition. -/
structure Kept.Lawful [Ride] [BlockSerializer] {υ β : Type} (K : Kept υ β)
    (Q : LevelDBWriter → Event → Prop) : Prop where
  history_empty : K.history Keys.empty = .empty
  cache_empty : ∀ (settings : BlockchainSettings) (dbSettings : DBSettings),
    K.cache (.empty settings dbSettings) = none
  /-- A block writes the value and indexes it, or leaves it as it is. -/
  append : ∀ (w : LevelDBWriter) (d : Diff) (carry : Long) (reward : Option Long) (block : Block),
    Q w (.append d carry reward block) → BlockDiffer.Produces (w.height + 1) block d carry →
    (∃ v threshold, threshold ≤ w.height + 1 - w.dbSettings.maxRollbackDepth ∧
      K.history (w.doAppend d carry reward block) =
        (K.history w.db).push (w.height + 1) threshold v ∧
      K.undone (w.doAppend d carry reward block) (w.height + 1) ∧
      (K.cache (w.append d carry reward block) = none ∨
        K.cache (w.append d carry reward block) = some (K.read v))) ∨
    (K.history (w.doAppend d carry reward block) = K.history w.db ∧
      (K.cache (w.append d carry reward block) = none ∨
        K.cache (w.append d carry reward block) = K.cache w))
  undone_append : ∀ (w : LevelDBWriter) (d : Diff) (carry : Long) (reward : Option Long)
    (block : Block) (h : ℕ), h ≤ w.height → K.undone w.db h →
    K.undone (w.doAppend d carry reward block) h
  /-- A discarded block drops the value if the index has it, and leaves it if not. -/
  discard : ∀ (w : LevelDBWriter) (n : ℕ),
    (K.history (w.discardKeys n) = (K.history w.db).drop n ∧
      K.cache (w.discardBlock n) = none) ∨
    (¬ K.undone w.db n ∧ K.history (w.discardKeys n) = K.history w.db ∧
      (K.cache (w.discardBlock n) = none ∨ K.cache (w.discardBlock n) = K.cache w))
  undone_discard : ∀ (w : LevelDBWriter) (n h : ℕ), h < n → K.undone w.db h →
    K.undone (w.discardKeys n) h
  load : ∀ (w : LevelDBWriter) (key : CacheKey),
    K.cache (w.load key) = K.cache w ∨ K.cache (w.load key) = some (K.answer w)
  evict : ∀ (w : LevelDBWriter) (key : CacheKey),
    K.cache (w.evict key) = K.cache w ∨ K.cache (w.evict key) = none
  restart : ∀ w : LevelDBWriter, K.cache w.restart = none
  /-- No cache depends on what else is in memory. -/
  aside : ∀ (w : LevelDBWriter) (height : ℕ) (lastBlock : Option Block)
    (activatedFeatures approvedFeatures : FiniteMap Short ℕ),
    K.cache
      { w with
        height := height
        lastBlock := lastBlock
        activatedFeatures := activatedFeatures
        approvedFeatures := approvedFeatures } = K.cache w

/-! ## 2. One step -/

namespace Kept

variable [Ride] [BlockSerializer] {υ β : Type} {K : Kept υ β}
  {Q : LevelDBWriter → Event → Prop} {w : LevelDBWriter} {n : ℕ}

omit [Crypto] [PBTransactionSerializer] [Ride] [BlockSerializer] in
theorem Holds.answer_eq (h : K.Holds w n) : K.answer w = K.read (K.history w.db).latest := by
  rw [answer]
  rcases hc : K.cache w with _ | v
  · rfl
  · exact h.coherent v hc

omit [Crypto] [PBTransactionSerializer] [Ride] [BlockSerializer] in
/-- The same keys, and a cache that holds the value or nothing. -/
theorem Holds.of_db {w' : LevelDBWriter} (h : K.Holds w n) (hdb : w'.db = w.db)
    (hcache : ∀ v, K.cache w' = some v → K.cache w = some v ∨ v = K.answer w) :
    K.Holds w' n := by
  refine ⟨by rw [hdb]; exact h.tracked, ?_⟩
  intro v hv
  rw [hdb]
  rcases hcache v hv with hold | hnew
  · exact h.coherent v hold
  · rw [hnew, h.answer_eq]

theorem Holds.append {d : Diff} {carry : Long} {reward : Option Long} {block : Block}
    (hK : K.Lawful Q) (h : K.Holds w w.height) (hQ : Q w (.append d carry reward block))
    (hblock : BlockDiffer.Produces (w.height + 1) block d carry) :
    K.Holds (w.append d carry reward block) (w.height + 1) := by
  have hindex := hK.undone_append w d carry reward block
  rcases hK.append w d carry reward block hQ hblock with
    ⟨v, threshold, -, hhistory, hundone, hcache⟩ | ⟨hhistory, hcache⟩
  · refine ⟨?_, ?_⟩
    · change (K.history (w.doAppend d carry reward block)).Tracked _ _
      rw [hhistory]
      exact h.tracked.push hindex hundone
    · intro x hx
      change x = K.read (K.history (w.doAppend d carry reward block)).latest
      rw [hhistory, History.latest_push h.tracked.upTo (Nat.lt_succ_self _)]
      rcases hcache with hcache | hcache
      · rw [hcache] at hx
        cases hx
      · rw [hcache] at hx
        exact (Option.some.inj hx).symm
  · refine ⟨?_, ?_⟩
    · change (K.history (w.doAppend d carry reward block)).Tracked _ _
      rw [hhistory]
      exact h.tracked.keep hindex
    · intro x hx
      change x = K.read (K.history (w.doAppend d carry reward block)).latest
      rw [hhistory]
      rcases hcache with hcache | hcache
      · rw [hcache] at hx
        cases hx
      · rw [hcache] at hx
        exact h.coherent x hx

/-- What the value was at a height survives an append that may not forget it. -/
theorem asOf_append {d : Diff} {carry : Long} {reward : Option Long} {block : Block} {k : ℕ}
    (hK : K.Lawful Q) (h : K.Holds w w.height) (hQ : Q w (.append d carry reward block))
    (hblock : BlockDiffer.Produces (w.height + 1) block d carry) (hk : k ≤ w.height)
    (hsafe : (w.append d carry reward block).db.safeRollbackHeight ≤ k) :
    (K.history (w.append d carry reward block).db).asOf k = (K.history w.db).asOf k := by
  change (K.history (w.doAppend d carry reward block)).asOf k = _
  rcases hK.append w d carry reward block hQ hblock with
    ⟨v, threshold, hthreshold, hhistory, -, -⟩ | ⟨hhistory, -⟩
  · have hmax : w.height + 1 - w.dbSettings.maxRollbackDepth ≤ k :=
      Nat.le_trans (Nat.le_max_right _ _) hsafe
    rw [hhistory]
    exact History.asOf_push h.tracked.upTo (Nat.lt_succ_self _) (by omega) (by omega)
  · rw [hhistory]

theorem Holds.discardBlock (hK : K.Lawful Q) (h : K.Holds w (n + 1)) :
    K.Holds (w.discardBlock (n + 1)) n := by
  have hindex : ∀ k ≤ n, K.undone w.db k → K.undone (w.discardKeys (n + 1)) k := by
    intro k hk hundone
    exact hK.undone_discard w (n + 1) k (by omega) hundone
  rcases hK.discard w (n + 1) with ⟨hhistory, hcache⟩ | ⟨hnot, hhistory, hcache⟩
  · refine ⟨?_, ?_⟩
    · change (K.history (w.discardKeys (n + 1))).Tracked _ _
      rw [hhistory]
      exact h.tracked.drop_last hindex
    · intro x hx
      rw [hcache] at hx
      cases hx
  · refine ⟨?_, ?_⟩
    · change (K.history (w.discardKeys (n + 1))).Tracked _ _
      rw [hhistory]
      exact h.tracked.pred hnot hindex
    · intro x hx
      change x = K.read (K.history (w.discardKeys (n + 1))).latest
      rw [hhistory]
      rcases hcache with hcache | hcache
      · rw [hcache] at hx
        cases hx
      · rw [hcache] at hx
        exact h.coherent x hx

theorem asOf_discardBlock {k : ℕ} (hK : K.Lawful Q) (hk : k < n) :
    (K.history (w.discardBlock n).db).asOf k = (K.history w.db).asOf k := by
  change (K.history (w.discardKeys n)).asOf k = _
  rcases hK.discard w n with ⟨hhistory, -⟩ | ⟨-, hhistory, -⟩
  · rw [hhistory, History.asOf_drop hk]
  · rw [hhistory]

/-! ## 3. Runs -/

/-- The rounds of a rollback, one height after another. -/
theorem Holds.discardBlocks (hK : K.Lawful Q) {targetHeight : ℕ} :
    ∀ {w : LevelDBWriter} (n : ℕ), K.Holds w (targetHeight + n) →
      K.Holds (discardBlocks targetHeight n w) targetHeight
  | _, 0, h => h
  | _, n + 1, h => Holds.discardBlocks hK n (h.discardBlock hK)

theorem asOf_discardBlocks (hK : K.Lawful Q) {targetHeight k : ℕ} (hk : k ≤ targetHeight) :
    ∀ (w : LevelDBWriter) (n : ℕ),
      (K.history (discardBlocks targetHeight n w).db).asOf k = (K.history w.db).asOf k
  | _, 0 => rfl
  | w, n + 1 => by
    rw [LevelDBWriter.discardBlocks, asOf_discardBlocks hK hk]
    exact asOf_discardBlock hK (by omega)

end Kept

/-- The height that the rounds of a rollback end at. -/
theorem height_discardBlocks (targetHeight : ℕ) :
    ∀ (w : LevelDBWriter) (n : ℕ), w.db.height = targetHeight + n →
      (discardBlocks targetHeight n w).db.height = targetHeight
  | _, 0, h => h
  | w, n + 1, _ => by
    rw [discardBlocks]
    exact height_discardBlocks targetHeight _ n rfl

/-- What an accepted rollback leaves. -/
theorem rollbackTo_eq_ok {w w' : LevelDBWriter} {id : BlockId} (h : w.rollbackTo id = .ok w') :
    w' = { w.doRollback id with
      height := (w.doRollback id).db.height
      lastBlock := (w.doRollback id).db.loadBlock (w.doRollback id).db.height
      activatedFeatures := (w.doRollback id).db.activatedFeatures ++
        (w.doRollback id).settings.functionalitySettings.preActivatedFeatures
      approvedFeatures := (w.doRollback id).db.approvedFeatures } := by
  unfold rollbackTo at h
  rcases hid : w.heightOf id with _ | targetHeight
  · rw [hid] at h
    cases h
  · rw [hid] at h
    dsimp only at h
    split at h
    · cases h
      rfl
    · cases h

section
omit [Crypto] [PBTransactionSerializer]

@[simp] theorem db_load (w : LevelDBWriter) (key : CacheKey) : (w.load key).db = w.db := by
  cases key <;> rfl

@[simp] theorem height_load (w : LevelDBWriter) (key : CacheKey) :
    (w.load key).height = w.height := by
  cases key <;> rfl

@[simp] theorem db_evict (w : LevelDBWriter) (key : CacheKey) : (w.evict key).db = w.db := by
  cases key <;> rfl

@[simp] theorem height_evict (w : LevelDBWriter) (key : CacheKey) :
    (w.evict key).height = w.height := by
  cases key <;> rfl

end

namespace Kept

variable [Ride] [BlockSerializer] {υ β : Type} {K : Kept υ β}
  {Q : LevelDBWriter → Event → Prop} {w : LevelDBWriter}

theorem Holds.doRollback (hK : K.Lawful Q) {id : BlockId} (hheight : w.db.height = w.height)
    (h : K.Holds w w.height) : K.Holds (w.doRollback id) (w.doRollback id).db.height := by
  rw [LevelDBWriter.doRollback]
  rcases w.db.heightOf id with _ | targetHeight
  · rw [hheight]
    exact h
  · dsimp only
    by_cases ht : targetHeight ≤ w.height
    · have hsplit : targetHeight + (w.height - targetHeight) = w.height := by omega
      have hend := height_discardBlocks targetHeight w (w.height - targetHeight) (by omega)
      rw [hend]
      exact Holds.discardBlocks hK _ (by rw [hsplit]; exact h)
    · -- a target above the last block: no round is made
      have hzero : w.height - targetHeight = 0 := by omega
      rw [hzero, LevelDBWriter.discardBlocks, hheight]
      exact h

/-- **One event.** -/
theorem Holds.leads {w' : LevelDBWriter} {e : Event} (hK : K.Lawful Q)
    (hheight : w.db.height = w.height) (h : K.Holds w w.height) (hQ : Q w e)
    (hleads : e.Leads w w') : w'.db.height = w'.height ∧ K.Holds w' w'.height := by
  cases e with
  | append d carry reward block =>
    obtain ⟨hblock, rfl⟩ := hleads
    exact ⟨rfl, h.append hK hQ hblock⟩
  | rollbackTo id =>
    rw [rollbackTo_eq_ok hleads]
    refine ⟨rfl, (h.doRollback hK hheight).of_db rfl ?_⟩
    intro v hv
    rw [hK.aside] at hv
    exact .inl hv
  | load key =>
    cases hleads
    rw [db_load, height_load]
    refine ⟨hheight, h.of_db (db_load w key) ?_⟩
    intro v hv
    rcases hK.load w key with hsame | hnew
    · exact .inl (hsame ▸ hv)
    · rw [hnew] at hv
      exact .inr (Option.some.inj hv).symm
  | evict key =>
    cases hleads
    rw [db_evict, height_evict]
    refine ⟨hheight, h.of_db (db_evict w key) ?_⟩
    intro v hv
    rcases hK.evict w key with hsame | hnone
    · exact .inl (hsame ▸ hv)
    · rw [hnone] at hv
      cases hv
  | restart =>
    cases hleads
    refine ⟨rfl, ?_⟩
    change K.Holds w.restart w.db.height
    rw [hheight]
    refine h.of_db rfl ?_
    intro v hv
    rw [hK.restart] at hv
    cases hv

/-- **In every run** whose appended blocks meet the condition, the value is indexed up to
the height, and its cache is right. -/
theorem reachable_holds (hK : K.Lawful Q) {settings : BlockchainSettings}
    {dbSettings : DBSettings} (h : Reachable Q settings dbSettings w) :
    w.db.height = w.height ∧ K.Holds w w.height := by
  induction h with
  | empty =>
    refine ⟨rfl, ?_, ?_⟩
    · change (K.history Keys.empty).Tracked _ _
      rw [hK.history_empty]
      exact History.tracked_empty _
    · intro v hv
      rw [hK.cache_empty] at hv
      cases hv
  | step _ hQ hleads ih => exact ih.2.leads hK ih.1 hQ hleads

/-- **Blocks on top** leave what the value was at a height, as long as it may be rolled
back to. -/
theorem grows_asOf {v : LevelDBWriter} (hK : K.Lawful Q) (hheight : w.db.height = w.height)
    (h : K.Holds w w.height) (hgrows : Grows Q w v) :
    (v.db.height = v.height ∧ K.Holds v v.height) ∧ w.height ≤ v.height ∧
      (v.db.safeRollbackHeight ≤ w.height →
        (K.history v.db).asOf w.height = (K.history w.db).asOf w.height) := by
  induction hgrows with
  | refl => exact ⟨⟨hheight, h⟩, Nat.le_refl _, fun _ => rfl⟩
  | @step v v' e _ hQ hno hleads ih =>
    obtain ⟨⟨hvheight, hv⟩, hle, hasOf⟩ := ih
    refine ⟨hv.leads hK hvheight hQ hleads, ?_⟩
    cases e with
    | append d carry reward block =>
      obtain ⟨hblock, rfl⟩ := hleads
      refine ⟨Nat.le_succ_of_le hle, ?_⟩
      intro hsafe
      rw [asOf_append hK hv hQ hblock hle hsafe]
      exact hasOf (Nat.le_trans (Nat.le_max_left _ _) hsafe)
    | rollbackTo id => exact absurd rfl (hno id)
    | load key =>
      cases hleads
      rw [db_load, height_load]
      exact ⟨hle, hasOf⟩
    | evict key =>
      cases hleads
      rw [db_evict, height_evict]
      exact ⟨hle, hasOf⟩
    | restart =>
      cases hleads
      exact ⟨Nat.le_trans hle (Nat.le_of_eq hvheight.symm), hasOf⟩

/-- **A rollback gives the value back.** -/
theorem Lawful.doRollback_answer {v : LevelDBWriter} {settings : BlockchainSettings}
    {dbSettings : DBSettings} {id : BlockId} (hK : K.Lawful Q)
    (h : Reachable Q settings dbSettings w) (hgrows : Grows Q w v)
    (htarget : v.db.heightOf id = some w.height) (hsafe : v.db.safeRollbackHeight ≤ w.height) :
    K.answer (v.doRollback id) = K.answer w := by
  obtain ⟨hheight, hholds⟩ := reachable_holds hK h
  obtain ⟨⟨hvheight, hv⟩, hle, hasOf⟩ := grows_asOf hK hheight hholds hgrows
  have hsplit : w.height + (v.height - w.height) = v.height := by omega
  have hrounds : K.Holds (discardBlocks w.height (v.height - w.height) v) w.height :=
    Holds.discardBlocks hK _ (by rw [hsplit]; exact hv)
  have hroll : v.doRollback id = discardBlocks w.height (v.height - w.height) v := by
    rw [LevelDBWriter.doRollback, htarget]
  have hvalue : (K.history (v.doRollback id).db).latest = (K.history w.db).latest := by
    rw [hroll, hrounds.tracked.upTo.latest_eq_asOf, asOf_discardBlocks hK (Nat.le_refl _),
      hasOf hsafe, hholds.tracked.upTo.latest_eq_asOf]
  rw [← hroll] at hrounds
  rw [hrounds.answer_eq, hholds.answer_eq, hvalue]

end Kept

/-! ## 4. How a value is written -/

section
omit [Crypto] [PBTransactionSerializer]

theorem update_update_apply {α γ δ : Type} [DecidableEq α] [DecidableEq γ] (f : α → γ → δ)
    (a a' : α) (c c' : γ) (v : δ) :
    Function.update f a' (Function.update (f a') c' v) a c =
      if a = a' ∧ c = c' then v else f a c := by
  by_cases ha : a = a'
  · subst ha
    rw [Function.update_self, Function.update_apply]
    by_cases hc : c = c'
    · rw [if_pos hc, if_pos ⟨rfl, hc⟩]
    · rw [if_neg hc, if_neg fun h => hc h.2]
  · rw [Function.update_of_ne ha, if_neg fun h => ha h.1]

end

variable [Ride] [BlockSerializer]

omit [Ride] [BlockSerializer] in
/-- A value that is written where there is one, and cached as it is written. -/
theorem Kept.appended_pushSome {υ β : Type} {K : Kept υ β} {w : LevelDBWriter} {d : Diff}
    {carry : Long} {reward : Option Long} {block : Block} {v : Option υ} {threshold : ℕ}
    (hthreshold : threshold ≤ w.height + 1 - w.dbSettings.maxRollbackDepth)
    (hhistory : K.history (w.doAppend d carry reward block) =
      (K.history w.db).pushSome (w.height + 1) threshold v)
    (hundone : ∀ x, v = some x → K.undone (w.doAppend d carry reward block) (w.height + 1))
    (hnone : v = none → K.cache (w.append d carry reward block) = K.cache w)
    (hsome : ∀ x, v = some x →
      K.cache (w.append d carry reward block) = some (K.read (some x))) :
    (∃ v threshold, threshold ≤ w.height + 1 - w.dbSettings.maxRollbackDepth ∧
      K.history (w.doAppend d carry reward block) =
        (K.history w.db).push (w.height + 1) threshold v ∧
      K.undone (w.doAppend d carry reward block) (w.height + 1) ∧
      (K.cache (w.append d carry reward block) = none ∨
        K.cache (w.append d carry reward block) = some (K.read v))) ∨
    (K.history (w.doAppend d carry reward block) = K.history w.db ∧
      (K.cache (w.append d carry reward block) = none ∨
        K.cache (w.append d carry reward block) = K.cache w)) := by
  rcases v with _ | x
  · exact .inr ⟨hhistory, .inr (hnone rfl)⟩
  · exact .inl ⟨some x, threshold, hthreshold, hhistory, hundone x rfl, .inr (hsome x rfl)⟩

omit [Crypto] [PBTransactionSerializer] [Ride] [BlockSerializer] in
theorem updatedBalance_waves {w : LevelDBWriter} {d : Diff} {a : Address} {v : Long}
    (h : w.updatedBalance d a .Waves = some v) : a ∈ changedAddresses d := by
  unfold updatedBalance at h
  rcases hp : d.portfolios.get? a with _ | p
  · rw [hp] at h
    cases h
  · rw [hp, Option.bind_some] at h
    dsimp only at h
    by_cases hzero : p.balance ≠ 0
    · rw [changedAddresses, Finset.mem_union, Finset.mem_filter]
      refine .inr ⟨FiniteMap.mem_dom_of_get? hp, ?_⟩
      rw [Portfolios.of, FiniteMap.getOrElse, hp]
      exact hzero
    · rw [if_neg hzero] at h
      cases h

omit [Crypto] [PBTransactionSerializer] [Ride] [BlockSerializer] in
theorem updatedBalance_issued {w : LevelDBWriter} {d : Diff} {a : Address} {asset : IssuedAsset}
    {v : Long} (h : w.updatedBalance d a (.issued asset) = some v) :
    a ∈ d.portfolios.dom ∧ asset ∈ (d.portfolios.of a).assets.dom := by
  unfold updatedBalance at h
  rcases hp : d.portfolios.get? a with _ | p
  · rw [hp] at h
    cases h
  · rw [hp, Option.bind_some] at h
    dsimp only at h
    rcases hdelta : p.assets.get? asset with _ | delta
    · rw [hdelta] at h
      cases h
    · refine ⟨FiniteMap.mem_dom_of_get? hp, ?_⟩
      rw [Portfolios.of, FiniteMap.getOrElse, hp]
      exact FiniteMap.mem_dom_of_get? hdelta

omit [Ride] [BlockSerializer] in
/-- An account whose data changes is in the index. -/
theorem mem_changedAddresses_of_records {d : Diff} {txs : List Transaction} (h : d.Records txs)
    {a : Address} (ha : a ∈ d.accountData.dom) : a ∈ changedAddresses d := by
  obtain ⟨id, entry, hentry, -, hmem⟩ := h.accountData a ha
  rw [LevelDBWriter.changedAddresses, Finset.mem_union, transactionAddresses, Finset.mem_biUnion]
  refine .inl ⟨id, FiniteMap.mem_dom_of_get? hentry, ?_⟩
  rw [hentry]
  exact hmem

omit [Ride] [BlockSerializer] in
/-- Of two transactions of one id the block stores the last one, so none is missing where
they are the same. -/
theorem mem_transactionsAtHeight_doAppend {w : LevelDBWriter} {d : Diff} {carry : Long}
    {reward : Option Long} {block : Block} (hids : IdsDistinct block.transactionData)
    {tx : Transaction} (htx : tx ∈ block.transactionData) :
    tx ∈ (w.doAppend d carry reward block).transactionsAtHeight (w.height + 1) := by
  have hnumbered : ∀ {entry : ℕ × Transaction}, entry ∈ numbered block.transactionData →
      entry.2 ∈ block.transactionData := by
    intro entry hentry
    obtain ⟨p, hp, rfl⟩ := List.mem_map.mp hentry
    exact List.fst_mem_of_mem_zipIdx hp
  obtain ⟨i, hi, rfl⟩ := List.getElem_of_mem htx
  have hentry : (i, block.transactionData[i]) ∈ numbered block.transactionData :=
    List.mem_map.mpr ⟨(block.transactionData[i], i), List.mk_mem_zipIdx_iff_getElem?.mpr
      (List.getElem?_eq_getElem hi), rfl⟩
  have hkey : block.transactionData[i].id ∈
      ((numbered block.transactionData).map fun e => (e.2.id, e)).map Prod.fst := by
    rw [List.map_map]
    exact List.mem_map_of_mem (f := fun e : ℕ × Transaction => e.2.id) hentry
  obtain ⟨last, hlast, hget⟩ := FiniteMap.exists_get?_ofList hkey
  obtain ⟨e, he, heq⟩ := List.mem_map.mp hlast
  obtain ⟨hid, rfl⟩ := Prod.mk.inj heq
  have hlastTx := hids.eq_of_id (hnumbered he) (List.getElem_mem hi) hid
  rw [Keys.transactionsAtHeight, List.mem_map]
  refine ⟨e, ?_, hlastTx⟩
  change e ∈ if w.height + 1 = w.height + 1 then _ else _
  rw [if_pos rfl, List.mem_filter]
  refine ⟨he, ?_⟩
  rw [decide_eq_true_eq, hid]
  exact hget

/-! ## 5. Balances, data and fills -/

section
omit [Crypto] [PBTransactionSerializer] [Ride] [BlockSerializer]

def keptBalance (a : Address) : Asset → Kept Long Long
  | .Waves =>
    { history := fun db => db.wavesBalance a
      undone := fun db h => a ∈ db.changedAddresses h
      cache := fun w => w.balancesCache a .Waves
      read := fun v => v.getD 0 }
  | .issued asset =>
    { history := fun db => db.assetBalance a asset
      undone := fun db h => a ∈ db.changedAddresses h ∧ asset ∈ db.assetList a
      cache := fun w => w.balancesCache a (.issued asset)
      read := fun v => v.getD 0 }

def keptAccountData (a : Address) (key : String) : Kept DataEntry (Option DataEntry) where
  history db := db.data a key
  undone db h := a ∈ db.changedAddresses h ∧ key ∈ db.changedDataKeys h a
  cache w := w.accountDataCache a key
  read v := v

end

omit [Ride] [BlockSerializer] in
def keptFill (orderId : ByteStr) : Kept VolumeAndFee VolumeAndFee where
  history db := db.filledVolumeAndFee orderId
  undone db h := ∃ tx ∈ db.transactionsAtHeight h, orderId ∈ fillsUndoneBy tx
  cache w := w.volumeAndFeeCache orderId
  read v := v.getD VolumeAndFee.empty

/-- **The condition**: the ids of a block are distinct, and every address whose asset
balances its diff changes is in the index. -/
def BalancesIndexed (_ : LevelDBWriter) : Event → Prop
  | .append d _ _ block => IdsDistinct block.transactionData ∧
    ∀ a ∈ d.portfolios.dom, (d.portfolios.of a).assets.dom ≠ ∅ → a ∈ changedAddresses d
  | _ => True

theorem lawful_keptBalance (a : Address) (asset : Asset) :
    (keptBalance a asset).Lawful BalancesIndexed where
  history_empty := by cases asset <;> rfl
  cache_empty _ _ := by cases asset <;> rfl
  append := by
    intro w d carry reward block hQ _
    have hnone : w.updatedBalance d a asset = none →
        (keptBalance a asset).cache (w.append d carry reward block) =
          (keptBalance a asset).cache w := by
      intro hv
      cases asset <;> exact Option.or_eq_right_of_none hv
    have hsome : ∀ v, w.updatedBalance d a asset = some v →
        (keptBalance a asset).cache (w.append d carry reward block) =
          some ((keptBalance a asset).read (some v)) := by
      intro v hv
      cases asset <;> exact Option.or_eq_some_iff.mpr (.inl hv)
    cases asset with
    | Waves =>
      refine Kept.appended_pushSome (v := w.updatedBalance d a .Waves) (by omega) rfl ?_ hnone hsome
      intro v hv
      change a ∈ if w.height + 1 = w.height + 1 then _ else _
      rw [if_pos rfl]
      exact updatedBalance_waves hv
    | issued x =>
      refine Kept.appended_pushSome (v := w.updatedBalance d a (.issued x)) (by omega) rfl ?_ hnone
        hsome
      intro v hv
      obtain ⟨ha, hx⟩ := updatedBalance_issued hv
      refine ⟨?_, Finset.mem_union_right _ hx⟩
      change a ∈ if w.height + 1 = w.height + 1 then _ else _
      rw [if_pos rfl]
      exact hQ.2 a ha (Finset.ne_empty_of_mem hx)
  undone_append w d carry reward block h hh := by
    have hold : (w.doAppend d carry reward block).changedAddresses h = w.db.changedAddresses h :=
      if_neg (by omega)
    cases asset with
    | Waves =>
      intro hundone
      change a ∈ (w.doAppend d carry reward block).changedAddresses h
      rwa [hold]
    | issued x =>
      intro hundone
      refine ⟨?_, Finset.mem_union_left _ hundone.2⟩
      rw [hold]
      exact hundone.1
  discard w n := by
    cases asset with
    | Waves =>
      by_cases ha : a ∈ w.db.changedAddresses n
      · exact .inl ⟨if_pos ha, if_pos ha⟩
      · exact .inr ⟨ha, if_neg ha, .inr (if_neg ha)⟩
    | issued x =>
      by_cases ha : a ∈ w.db.changedAddresses n ∧ x ∈ w.db.assetList a
      · exact .inl ⟨if_pos ha, if_pos ha⟩
      · exact .inr ⟨ha, if_neg ha, .inr (if_neg ha)⟩
  undone_discard w n h _ := by cases asset <;> exact fun hundone => hundone
  load w key := by
    cases key with
    | balance a' asset' =>
      have hupdate := update_update_apply w.balancesCache a a' asset asset' (some (w.balance a' asset'))
      by_cases hkey : a = a' ∧ asset = asset'
      · obtain ⟨rfl, rfl⟩ := hkey
        rw [if_pos ⟨rfl, rfl⟩] at hupdate
        refine .inr ?_
        cases asset <;> exact hupdate
      · rw [if_neg hkey] at hupdate
        refine .inl ?_
        cases asset <;> exact hupdate
    | _ => exact .inl (by cases asset <;> rfl)
  evict w key := by
    cases key with
    | balance a' asset' =>
      have hupdate := update_update_apply w.balancesCache a a' asset asset' none
      by_cases hkey : a = a' ∧ asset = asset'
      · rw [if_pos hkey] at hupdate
        refine .inr ?_
        cases asset <;> exact hupdate
      · rw [if_neg hkey] at hupdate
        refine .inl ?_
        cases asset <;> exact hupdate
    | _ => exact .inl (by cases asset <;> rfl)
  restart _ := by cases asset <;> rfl
  aside _ _ _ _ _ := by cases asset <;> rfl

theorem lawful_keptAccountData (a : Address) (key : String) :
    (keptAccountData a key).Lawful BalancesIndexed where
  history_empty := rfl
  cache_empty _ _ := rfl
  append := by
    intro w d carry reward block hQ hblock
    refine Kept.appended_pushSome
      (v := ((d.accountData.get? a).getD AccountDataInfo.empty).data.get? key) (by omega) rfl ?_ ?_ ?_
    · intro v hv
      rcases hinfo : d.accountData.get? a with _ | info
      · rw [hinfo] at hv
        cases hv
      · rw [hinfo, Option.getD_some] at hv
        have hindexed : a ∈ changedAddresses d :=
          mem_changedAddresses_of_records (hblock.records hQ.1) (FiniteMap.mem_dom_of_get? hinfo)
        refine ⟨?_, ?_⟩
        · change a ∈ if w.height + 1 = w.height + 1 then _ else _
          rwa [if_pos rfl]
        · rw [doAppend]
          simp only [hinfo, if_pos]
          exact FiniteMap.mem_dom_of_get? hv
    · intro hv
      exact Option.or_eq_right_of_none (Option.map_eq_none_iff.mpr hv)
    · intro v hv
      exact Option.or_eq_some_iff.mpr (.inl (Option.map_eq_some_iff.mpr ⟨v, hv, rfl⟩))
  undone_append w d carry reward block h hh hundone := by
    have hne : h ≠ w.height + 1 := by omega
    refine ⟨?_, ?_⟩
    · change a ∈ if h = w.height + 1 then _ else _
      rw [if_neg hne]
      exact hundone.1
    · unfold doAppend
      dsimp only
      rcases d.accountData.get? a with _ | info
      · exact hundone.2
      · dsimp only
        rw [if_neg hne]
        exact hundone.2
  discard w n := by
    by_cases ha : a ∈ w.db.changedAddresses n ∧ key ∈ w.db.changedDataKeys n a
    · exact .inl ⟨if_pos ha, if_pos ha⟩
    · exact .inr ⟨ha, if_neg ha, .inr (if_neg ha)⟩
  undone_discard _ _ _ _ hundone := hundone
  load w place := by
    cases place with
    | accountData a' key' =>
      have hupdate := update_update_apply w.accountDataCache a a' key key'
        (some (w.accountDataEntry a' key'))
      by_cases hkey : a = a' ∧ key = key'
      · obtain ⟨rfl, rfl⟩ := hkey
        rw [if_pos ⟨rfl, rfl⟩] at hupdate
        exact .inr hupdate
      · rw [if_neg hkey] at hupdate
        exact .inl hupdate
    | _ => exact .inl rfl
  evict w place := by
    cases place with
    | accountData a' key' =>
      have hupdate := update_update_apply w.accountDataCache a a' key key' none
      by_cases hkey : a = a' ∧ key = key'
      · rw [if_pos hkey] at hupdate
        exact .inr hupdate
      · rw [if_neg hkey] at hupdate
        exact .inl hupdate
    | _ => exact .inl rfl
  restart _ := rfl
  aside _ _ _ _ _ := rfl

omit [Ride] [BlockSerializer] in
/-- The transactions of a height below an appended or a discarded block stay. -/
theorem transactionsAtHeight_doAppend {w : LevelDBWriter} {d : Diff} {carry : Long}
    {reward : Option Long} {block : Block} {h : ℕ} (hh : h ≤ w.height) :
    (w.doAppend d carry reward block).transactionsAtHeight h = w.db.transactionsAtHeight h :=
  congrArg (List.map Prod.snd) (if_neg (by omega))

omit [Ride] [BlockSerializer] in
theorem transactionsAtHeight_discardKeys {w : LevelDBWriter} {n h : ℕ} (hh : h < n) :
    (w.discardKeys n).transactionsAtHeight h = w.db.transactionsAtHeight h :=
  congrArg (List.map Prod.snd) (if_neg (by omega))

theorem lawful_keptFill (orderId : ByteStr) : (keptFill orderId).Lawful BalancesIndexed where
  history_empty := rfl
  cache_empty _ _ := rfl
  append := by
    intro w d carry reward block hQ hblock
    refine Kept.appended_pushSome (v := w.newFill d orderId) (by omega) rfl ?_ ?_ ?_
    · intro v hv
      rcases hfill : d.orderFills.get? orderId with _ | fill
      · rw [newFill, hfill] at hv
        cases hv
      · obtain ⟨tx, htx, hfills⟩ :=
          (hblock.records hQ.1).orderFills orderId (FiniteMap.mem_dom_of_get? hfill)
        exact ⟨tx, mem_transactionsAtHeight_doAppend hQ.1 htx, hfills⟩
    · intro hv
      exact Option.or_eq_right_of_none hv
    · intro v hv
      exact Option.or_eq_some_iff.mpr (.inl hv)
  undone_append w d carry reward block h hh := by
    rintro ⟨tx, htx, hfills⟩
    exact ⟨tx, by rwa [transactionsAtHeight_doAppend hh], hfills⟩
  discard w n := by
    by_cases hany : (w.db.transactionsAtHeight n).any fun tx => orderId ∈ fillsUndoneBy tx
    · exact .inl ⟨if_pos hany, if_pos hany⟩
    · refine .inr ⟨?_, if_neg hany, .inr (if_neg hany)⟩
      rintro ⟨tx, htx, hfills⟩
      exact hany (List.any_eq_true.mpr ⟨tx, htx, decide_eq_true hfills⟩)
  undone_discard w n h hh := by
    rintro ⟨tx, htx, hfills⟩
    exact ⟨tx, by rwa [transactionsAtHeight_discardKeys hh], hfills⟩
  load w place := by
    cases place with
    | volumeAndFee orderId' =>
      by_cases hkey : orderId = orderId'
      · subst hkey
        exact .inr (Function.update_self ..)
      · exact .inl (Function.update_of_ne hkey ..)
    | _ => exact .inl rfl
  evict w place := by
    cases place with
    | volumeAndFee orderId' =>
      by_cases hkey : orderId = orderId'
      · subst hkey
        exact .inr (Function.update_self ..)
      · exact .inl (Function.update_of_ne hkey ..)
    | _ => exact .inl rfl
  restart _ := rfl
  aside _ _ _ _ _ := rfl

/-! ## 6. The keys of an account -/

/-- The height is that of the keys, and no block has the height zero. -/
structure Sound (w : LevelDBWriter) : Prop where
  height : w.db.height = w.height
  heightOf_pos : ∀ id h, w.db.heightOf id = some h → 1 ≤ h

/-- A property of the keys that an appended block, where it meets a condition, and a
discarded block keep. -/
structure KeysInvariant (Q : LevelDBWriter → Event → Prop) (P : Keys → Prop) : Prop where
  empty : P Keys.empty
  append : ∀ {w : LevelDBWriter} {d : Diff} {carry : Long} {reward : Option Long} {block : Block},
    w.db.height = w.height → Q w (.append d carry reward block) →
    BlockDiffer.Produces (w.height + 1) block d carry → P w.db →
    P (w.doAppend d carry reward block)
  discard : ∀ {w : LevelDBWriter} {n : ℕ}, w.db.height = n + 1 → 1 ≤ n → P w.db →
    P (w.discardKeys (n + 1))

namespace KeysInvariant

variable {P : Keys → Prop} {Q : LevelDBWriter → Event → Prop} {w v : LevelDBWriter}

theorem discardBlocks (hP : KeysInvariant Q P) {targetHeight : ℕ} (ht : 1 ≤ targetHeight) :
    ∀ {w : LevelDBWriter} (n : ℕ), w.db.height = targetHeight + n → P w.db →
      P (discardBlocks targetHeight n w).db
  | _, 0, _, h => h
  | w, n + 1, hheight, h => by
    rw [LevelDBWriter.discardBlocks]
    exact hP.discardBlocks ht n rfl (hP.discard hheight (by omega) h)

theorem doRollback (hP : KeysInvariant Q P) (hw : Sound w) (id : BlockId) (h : P w.db) :
    P (w.doRollback id).db := by
  rw [LevelDBWriter.doRollback]
  rcases hid : w.db.heightOf id with _ | targetHeight
  · exact h
  · dsimp only
    by_cases ht : targetHeight ≤ w.height
    · have hheight := hw.height
      exact hP.discardBlocks (hw.heightOf_pos id _ hid) _ (by omega) h
    · have hzero : w.height - targetHeight = 0 := by omega
      rw [hzero]
      exact h

end KeysInvariant

omit [Ride] [BlockSerializer] in
theorem Sound.append {w : LevelDBWriter} (hw : Sound w) (d : Diff) (carry : Long)
    (reward : Option Long) (block : Block) : Sound (w.append d carry reward block) where
  height := rfl
  heightOf_pos id h hid := by
    change (if id = block.uniqueId then some (w.height + 1) else w.db.heightOf id) = some h at hid
    by_cases hnew : id = block.uniqueId
    · rw [if_pos hnew] at hid
      have := Option.some.inj hid
      omega
    · rw [if_neg hnew] at hid
      exact hw.heightOf_pos id h hid

omit [Ride] [BlockSerializer] in
theorem heightOf_discardBlocks {targetHeight : ℕ} {id : BlockId} {h : ℕ} :
    ∀ {w : LevelDBWriter} (n : ℕ), (discardBlocks targetHeight n w).db.heightOf id = some h →
      w.db.heightOf id = some h
  | _, 0, hid => hid
  | w, n + 1, hid => by
    have hround := heightOf_discardBlocks n hid
    change (if _ then none else w.db.heightOf id) = some h at hround
    split at hround
    · cases hround
    · exact hround

omit [Ride] [BlockSerializer] in
theorem Sound.doRollback {w : LevelDBWriter} (hw : Sound w) (id : BlockId) (target : BlockId)
    (h : ℕ) (hid : (w.doRollback id).db.heightOf target = some h) : 1 ≤ h := by
  rw [LevelDBWriter.doRollback] at hid
  rcases ht : w.db.heightOf id with _ | targetHeight
  · rw [ht] at hid
    exact hw.heightOf_pos target h hid
  · rw [ht] at hid
    exact hw.heightOf_pos target h (heightOf_discardBlocks _ hid)

theorem Sound.leads {w v : LevelDBWriter} {e : Event} (hw : Sound w) (hleads : e.Leads w v) :
    Sound v := by
  cases e with
  | append d carry reward block =>
    obtain ⟨-, rfl⟩ := hleads
    exact hw.append d carry reward block
  | rollbackTo id =>
    rw [rollbackTo_eq_ok hleads]
    exact ⟨rfl, hw.doRollback id⟩
  | load key =>
    cases hleads
    exact ⟨by rw [db_load, height_load, hw.height], by rw [db_load]; exact hw.heightOf_pos⟩
  | evict key =>
    cases hleads
    exact ⟨by rw [db_evict, height_evict, hw.height], by rw [db_evict]; exact hw.heightOf_pos⟩
  | restart =>
    cases hleads
    exact ⟨rfl, hw.heightOf_pos⟩

theorem Reachable.sound {Q : LevelDBWriter → Event → Prop} {settings : BlockchainSettings}
    {dbSettings : DBSettings} {w : LevelDBWriter} (h : Reachable Q settings dbSettings w) :
    Sound w := by
  induction h with
  | empty =>
    refine ⟨rfl, ?_⟩
    intro id h hid
    cases hid
  | step _ _ hleads ih => exact ih.leads hleads

theorem Grows.sound {Q : LevelDBWriter → Event → Prop} {w v : LevelDBWriter}
    (hgrows : Grows Q w v) (hw : Sound w) : Sound v := by
  induction hgrows with
  | refl => exact hw
  | step _ _ _ hleads ih => exact ih.leads hleads

namespace KeysInvariant

variable {P : Keys → Prop} {Q : LevelDBWriter → Event → Prop} {w v : LevelDBWriter}

theorem leads {e : Event} (hP : KeysInvariant Q P) (hw : Sound w) (hQ : Q w e) (h : P w.db)
    (hleads : e.Leads w v) : P v.db := by
  cases e with
  | append d carry reward block =>
    obtain ⟨hblock, rfl⟩ := hleads
    exact hP.append hw.height hQ hblock h
  | rollbackTo id =>
    rw [rollbackTo_eq_ok hleads]
    exact hP.doRollback hw id h
  | load key =>
    cases hleads
    rwa [db_load]
  | evict key =>
    cases hleads
    rwa [db_evict]
  | restart =>
    cases hleads
    exact h

/-- It holds in every run. -/
theorem reachable (hP : KeysInvariant Q P) {settings : BlockchainSettings}
    {dbSettings : DBSettings} (h : Reachable Q settings dbSettings w) : P w.db := by
  induction h with
  | empty => exact hP.empty
  | step hrun hQ hleads ih => exact hP.leads hrun.sound hQ ih hleads

theorem grows (hP : KeysInvariant Q P) (hw : Sound w) (h : P w.db) (hgrows : Grows Q w v) :
    P v.db := by
  induction hgrows with
  | refl => exact h
  | step hrun hQ _ hleads ih => exact hP.leads (hrun.sound hw) hQ ih hleads

end KeysInvariant

/-- Every key of an account that was ever written is in the account's list of keys. -/
def ChunksComplete (db : Keys) : Prop :=
  ∀ a key, (db.data a key).heights ≠ [] → key ∈ db.dataKeyChunk a

theorem chunksComplete {Q : LevelDBWriter → Event → Prop} : KeysInvariant Q ChunksComplete where
  empty a key hne := absurd rfl hne
  append := by
    intro w d carry reward block _ _ _ h a key hwritten
    change key ∈ w.db.dataKeyChunk a ∪ Finset.filter _ _
    rw [Finset.mem_union, Finset.mem_filter]
    by_cases hold : (w.db.data a key).heights = []
    · refine .inr ⟨?_, hold⟩
      rw [FiniteMap.mem_dom]
      -- without a history before, it is this block that wrote the key
      rcases hv : ((d.accountData.get? a).getD AccountDataInfo.empty).data.get? key with _ | v
      · refine absurd ?_ hwritten
        change ((w.db.data a key).pushSome _ _
          (((d.accountData.get? a).getD AccountDataInfo.empty).data.get? key)).heights = []
        rw [hv]
        exact hold
      · rfl
    · exact .inl (h a key hold)
  discard := by
    intro w n _ _ h a key hwritten
    refine h a key fun hold => hwritten ?_
    change (if _ then (w.db.data a key).drop (n + 1) else w.db.data a key).heights = []
    split
    · rw [History.drop, hold]
      rfl
    · exact hold

omit [Crypto] [PBTransactionSerializer] [Ride] [BlockSerializer] in
/-- The data of an account is what its keys are read as. -/
theorem get?_accountData {w : LevelDBWriter} {n : ℕ} {a : Address} {key : String}
    (hchunks : ChunksComplete w.db) (h : (keptAccountData a key).Holds w n) :
    (w.accountData a).data.get? key = w.accountDataEntry a key := by
  rw [accountData, FiniteMap.get?_filterMap, FiniteMap.get?_ofFinset]
  by_cases hkey : key ∈ w.db.dataKeyChunk a
  · rw [if_pos hkey, Option.bind_some]
  · rw [if_neg hkey, Option.bind_none]
    have hnever : (w.db.data a key).heights = [] := by
      by_contra hwritten
      exact hkey (hchunks a key hwritten)
    have hread : w.accountDataEntry a key = (w.db.data a key).latest := h.answer_eq
    rw [hread, History.latest, hnever]
    rfl

end LevelDBWriter

/-! ## 7. A burn that is not undone

Before NG a miner gets the whole fee of its block. Alice mines a block with a burn of hers:
her Waves do not change, and a burn records no address. -/

namespace Devnet

/-- A block that issues Alice's token, and nothing else. -/
def tokenBlock : Block :=
  { emptyBlock with
    signature := bytes 64
      0x77e7eff31afb17c20515e00b18ec71a64727862509811bc4ec2513ad39b76304ac4d76ea5e3471fc676e39acf8533f844f1bd743b15cfe50fec880d7f699c78b
    transactionData := [.issue token] }

def tokenBlockBytes : ByteStr :=
  bytes 298 0x030000015d3ef6fbc0813668d47528909acf62aeeba30294f9418c2e97172d3ba7c6b151db7b59017729e5dcdad233de6207ec6c23997c1e53e839c715225de43d375043d5b398e688000000280000000009299ff340328d507794ee8ca0f9169b6e221a1409677d18dc99c0d1674574ccf69aceb90000008d0000000100000085037ba0dfb6ad7f3fdc5c10b054aa8902405c5da24883bd0aa233be8bef3bbc6cf563d2f520c9e71641f9279955c70d96dbef6dca491054f8bc5a8aa5dd35a4e386032e8b2883c27b391359d7d0c15d00815a6693290a38dd8eba341cc07ddaa8ed4d0005546f6b656e000000000000000003e800010000000005f5e1000000015d3ef6fbc0000000001885844ed84c86501cd2221627f1d16cd4c60530e5415e1bf6cab037b054f150

def tokenAsset : IssuedAsset := ⟨tokenId⟩

def tokenBurn : BurnTransaction where
  version := 1
  sender := alice.publicKey
  asset := tokenAsset
  quantity := 400
  fee := 100000
  timestamp := 1500000020000
  proofs := ⟨[bytes 64
    0x383ec36cb91fb9dab822173f3dc9da43a468f6a3b02de32933e6a1675ee8cdbc73d400d3ad8a7b88be98adb6644bd98ed662316ce1e6811af11865b4723a7f85]⟩

def tokenBurnBody : ByteStr :=
  bytes 89 0x062e8b2883c27b391359d7d0c15d00815a6693290a38dd8eba341cc07ddaa8ed4d63030a93e3174c4641e7a48c2e034da7459a3b15be1e5a86b44b998ac8c3891b000000000000019000000000000186a00000015d3ef7e620

def burnBlock : Block where
  header :=
    { emptyBlock.header with
      timestamp := 1500000020000
      reference := tokenBlock.signature
      generationSignature :=
        bytes 32 0x6a189247ab33658fca4738d01ad89d236d612a1d7233fda28adea13f86a4ac67
      generator := alice.publicKey }
  signature := bytes 64
    0x3b127817b27c052a9c8a78b089e9b20e8527f7d80dd1cff58f0f78b2b06e3a246156a4835661dcf92ccd051fcc91efbd0afe30261b37b88719f78a72ad68a68e
  transactionData := [.burn tokenBurn]

def burnBlockBytes : ByteStr :=
  bytes 318 0x030000015d3ef7e62077e7eff31afb17c20515e00b18ec71a64727862509811bc4ec2513ad39b76304ac4d76ea5e3471fc676e39acf8533f844f1bd743b15cfe50fec880d7f699c78b000000280000000009299ff36a189247ab33658fca4738d01ad89d236d612a1d7233fda28adea13f86a4ac67000000a10000000100000099062e8b2883c27b391359d7d0c15d00815a6693290a38dd8eba341cc07ddaa8ed4d63030a93e3174c4641e7a48c2e034da7459a3b15be1e5a86b44b998ac8c3891b000000000000019000000000000186a00000015d3ef7e620383ec36cb91fb9dab822173f3dc9da43a468f6a3b02de32933e6a1675ee8cdbc73d400d3ad8a7b88be98adb6644bd98ed662316ce1e6811af11865b4723a7f85000000002e8b2883c27b391359d7d0c15d00815a6693290a38dd8eba341cc07ddaa8ed4d

/-- The platform that knows the token's block and the block of the burn. -/
def burnAnswers : KnownAnswers :=
  firstBlocks.and
    { digests :=
        [(tokenBody, tokenId),
          (tokenBurnBody,
            bytes 32 0xb288167e14f7a2d0ce509ed7e8018ad1fc564be25d2894d9decf6427bb80faf8)]
      signatures :=
        [⟨alice.publicKey, tokenBody, token.proofs.proofs.headD []⟩,
          ⟨alice.publicKey, tokenBurnBody, tokenBurn.proofs.proofs.headD []⟩,
          ⟨miner.publicKey, tokenBlockBytes, tokenBlock.signature⟩,
          ⟨alice.publicKey, burnBlockBytes, burnBlock.signature⟩]
      blocks := [(tokenBlock, tokenBlockBytes), (burnBlock, burnBlockBytes)] }

/-- The depth and the memory of a node as they are by default. -/
def dbSettings : DBSettings where
  maxRollbackDepth := 2000
  rememberBlocks := 10800000
  storeInvokeScriptResults := false

end Devnet

section
open Devnet LevelDBWriter

local instance burnCrypto : Crypto := burnAnswers.crypto
local instance burnSerializer : PBTransactionSerializer := pbTransactionSerializer
local instance burnBlocks : BlockSerializer := burnAnswers.blockSerializer
local instance burnRide : Ride := burnAnswers.ride

namespace Devnet

/-- No feature is in force. -/
def noBlocks : LevelDBWriter := .empty (settings []) dbSettings

def afterGenesis : Validation LevelDBWriter := noBlocks.appendBlocks [genesisBlock]

def atGenesis : LevelDBWriter := afterGenesis.toOption.getD noBlocks

def afterToken : Validation LevelDBWriter := atGenesis.appendBlocks [tokenBlock]

def atToken : LevelDBWriter := afterToken.toOption.getD noBlocks

def afterBurn : Validation LevelDBWriter := atToken.appendBlocks [burnBlock]

def atBurn : LevelDBWriter := afterBurn.toOption.getD noBlocks

/-- Whether the index has the addresses of a block. -/
def indexed (w : LevelDBWriter) (block : Block) : Bool :=
  (BlockDiffer.fromBlock w.blockchain w.lastBlock block .Unlimited).toOption.any fun r =>
    decide (∀ a ∈ r.diff.portfolios.dom,
      (r.diff.portfolios.of a).assets.dom ≠ ∅ → a ∈ changedAddresses r.diff)

end Devnet

/-- The run, and what Alice has of the token before the burn and after the rollback. -/
theorem burn_run :
    (afterGenesis.toOption.isSome ∧ afterToken.toOption.isSome ∧ afterBurn.toOption.isSome) ∧
      (indexed noBlocks genesisBlock ∧ indexed atGenesis tokenBlock) ∧
      (atToken.db.heightOf genesisBlock.signature = some atGenesis.height ∧
        atToken.db.safeRollbackHeight ≤ atGenesis.height) ∧
      (atBurn.db.heightOf tokenBlock.signature = some atToken.height ∧
        atBurn.db.safeRollbackHeight ≤ atToken.height) ∧
      (atToken.balance alice.address (.issued tokenAsset) = 1000 ∧
        (atBurn.doRollback tokenBlock.signature).balance alice.address (.issued tokenAsset) =
          600) ∧
      IdsDistinct genesisBlock.transactionData := by
  decide +kernel

theorem afterGenesis_eq : afterGenesis = .ok atGenesis := Validation.eq_ok_getD burn_run.1.1

theorem afterToken_eq : afterToken = .ok atToken := Validation.eq_ok_getD burn_run.1.2.1

theorem afterBurn_eq : afterBurn = .ok atBurn := Validation.eq_ok_getD burn_run.1.2.2

theorem balancesIndexed_of_indexed {w : LevelDBWriter} {block : Block} {r : BlockDiffer.Result}
    (hids : IdsDistinct block.transactionData) (h : indexed w block = true)
    (hr : BlockDiffer.fromBlock w.blockchain w.lastBlock block .Unlimited = .ok r) :
    BalancesIndexed w (.append r.diff r.carry none block) := by
  rw [indexed, hr] at h
  exact ⟨hids, of_decide_eq_true h⟩

end

end WavesNode
