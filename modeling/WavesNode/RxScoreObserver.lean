/-
The score observer: which peer the node synchronizes with.

Peers report the scores of their chains. The observer keeps the last score of every
peer for a while, and names a peer with the greatest of them as long as it is greater
than the node's own.

Local scores, remote scores and closed channels come from three streams that are
merged. A stream changes the state of the observer first, and the peer is chosen later,
when what the stream passed on leaves the merge. In between the other streams may have
changed the state again, so a run is any order of these steps. A cached score may expire
at any moment, and the cache lists its entries in any order.
-/
import WavesNode.Paging
import WavesNode.RxExtensionLoader

set_option autoImplicit false

namespace WavesNode

/-! ## 1. The greatest score of a list -/

section
variable {α β : Type} [LinearOrder β]

/-- The greatest score so far, and who has it, the last one first. -/
def keepBest (r : β × List α) (entry : α × β) : β × List α :=
  if r.1 < entry.2 then (entry.2, [entry.1])
  else if entry.2 = r.1 then (r.1, entry.1 :: r.2)
  else r

/-- What is kept is a bound of the scores, those that are kept reach it, and nobody is kept
only where no score reaches the least. -/
theorem keepBest_spec (least : β) (entries : List (α × β)) :
    least ≤ (entries.foldl keepBest (least, [])).1 ∧
      (∀ a b, (a, b) ∈ entries → b ≤ (entries.foldl keepBest (least, [])).1) ∧
      (∀ a, a ∈ (entries.foldl keepBest (least, [])).2 ↔
        (a, (entries.foldl keepBest (least, [])).1) ∈ entries) ∧
      ((entries.foldl keepBest (least, [])).2 = [] →
        (entries.foldl keepBest (least, [])).1 = least) := by
  -- from the left, entry by entry
  induction entries using List.reverseRecOn with
  | nil => simp
  | append_singleton before entry ih =>
    rw [List.foldl_append, List.foldl_cons, List.foldl_nil]
    generalize before.foldl keepBest (least, []) = r at ih ⊢
    obtain ⟨hleast, hbound, hkept, hnobody⟩ := ih
    obtain ⟨a, b⟩ := entry
    unfold keepBest
    by_cases hless : r.1 < b
    · -- nobody before reaches the new score
      have hnew : ∀ a', (a', b) ∉ before := fun a' hmem => not_le.mpr hless (hbound a' b hmem)
      simp only [hless, if_true]
      refine ⟨hleast.trans hless.le, ?_, ?_, by simp⟩
      · intro a' b' hmem
        rcases List.mem_append.mp hmem with hmem | hmem
        · exact (hbound a' b' hmem).trans hless.le
        · simp only [List.mem_singleton, Prod.mk.injEq] at hmem
          exact hmem.2.le
      · intro a'
        simp [hnew a']
    · simp only [hless, if_false]
      have hle : b ≤ r.1 := not_lt.mp hless
      have hbound' : ∀ a' b', (a', b') ∈ before ++ [(a, b)] → b' ≤ r.1 := by
        intro a' b' hmem
        rcases List.mem_append.mp hmem with hmem | hmem
        · exact hbound a' b' hmem
        · simp only [List.mem_singleton, Prod.mk.injEq] at hmem
          exact hmem.2.trans_le hle
      by_cases hsame : b = r.1
      · rw [if_pos hsame]
        refine ⟨hleast, hbound', ?_, by simp⟩
        intro a'
        simp only [List.mem_cons, List.mem_append, Prod.mk.injEq, hkept, hsame, and_true,
          List.not_mem_nil, or_false]
        exact or_comm
      · rw [if_neg hsame]
        refine ⟨hleast, hbound', ?_, hnobody⟩
        intro a'
        simp [hkept, Ne.symm hsame]

end

namespace RxScoreObserver

open RxExtensionLoader

variable {Channel : Type} [DecidableEq Channel]

/-! ## 2. The observer -/

/-- The order in which a cache lists its keys at some moment, whichever they are. -/
abbrev Listing (Channel : Type) := (s : Finset Channel) → Traversal s

/-- The entries of a cache in the order of a listing. -/
def entries (order : Listing Channel) (scores : FiniteMap Channel ℤ) : List (Channel × ℤ) :=
  (order scores.dom).list.filterMap fun ch => (scores.get? ch).map fun score => (ch, score)

@[simp] theorem mem_entries (order : Listing Channel) {scores : FiniteMap Channel ℤ}
    {ch : Channel} {score : ℤ} :
    (ch, score) ∈ entries order scores ↔ scores.get? ch = some score := by
  unfold entries
  simp only [List.mem_filterMap, Option.map_eq_some_iff, Prod.mk.injEq]
  constructor
  · rintro ⟨_, -, _, hget, rfl, rfl⟩
    exact hget
  · intro hget
    refine ⟨ch, ?_, score, hget, rfl, rfl⟩
    exact ((order scores.dom).mem_iff ch).mpr (FiniteMap.mem_dom_of_get? hget)

def calcSyncWith (order : Listing Channel) (bestChannel : Option Channel) (localScore : ℤ)
    (scoreMap : FiniteMap Channel ℤ) : SyncWith Channel :=
  let (bestScore, bestScoreChannels) := (entries order scoreMap).foldl keepBest (0, [])
  if localScore < bestScore then
    match bestScoreChannels with
    | [] => none
    | head :: _ =>
      match bestChannel with
      | some c => if c ∈ bestScoreChannels then some ⟨c, bestScore⟩ else some ⟨head, bestScore⟩
      | none => some ⟨head, bestScore⟩
  else none

/-- The variables of the observer, what its operators keep between two items, and what it
published. -/
structure Observer (Channel : Type) [DecidableEq Channel] where
  localScore : ℤ
  currentBestChannel : Option Channel := none
  scores : FiniteMap Channel ℤ := ∅
  /-- The last item of `localScores.distinctUntilChanged`. -/
  lastLocalScore : Option ℤ := none
  /-- The last item of `distinctUntilChanged` in the group of each channel. -/
  lastScores : FiniteMap Channel ℤ := ∅
  /-- What `debounce` keeps in the group of each channel until it is silent. -/
  debounced : FiniteMap Channel ℤ := ∅
  /-- What left the streams and is not handled yet. -/
  merged : List (Option Channel) := []
  published : List (ChannelClosedAndSyncWith Channel) := []

inductive Event (Channel : Type) where
  | localScore (score : ℤ)
  | remoteScore (ch : Channel) (score : ℤ)
  /-- A channel reported nothing new for `remoteScoreDebounce`. -/
  | silent (ch : Channel) (isOpen : Bool)
  /-- From `channelClosed` or `channelTimeout`. -/
  | closed (ch : Channel)
  /-- The cached score of a channel is older than `scoreTtl`. -/
  | expired (ch : Channel)
  /-- The next item leaves the merge. -/
  | handle (order : Listing Channel)

namespace Observer

def ls (w : Observer Channel) (score : ℤ) : Observer Channel :=
  if w.lastLocalScore = some score then w
  else
    { w with
      lastLocalScore := some score
      localScore := score
      merged := w.merged ++ [none] }

/-- `rs`, up to `debounce`. -/
def report (w : Observer Channel) (ch : Channel) (score : ℤ) : Observer Channel :=
  if w.lastScores.get? ch = some score then w
  else
    { w with
      lastScores := w.lastScores.insert ch score
      debounced := w.debounced.insert ch score }

/-- `rs`, from `debounce` on. -/
def rs (w : Observer Channel) (ch : Channel) (isOpen : Bool) : Observer Channel :=
  match w.debounced.get? ch with
  | none => w
  | some score =>
    let emitted := { w with debounced := w.debounced.erase ch }
    if isOpen then
      { emitted with
        scores := w.scores.insert ch score
        merged := w.merged ++ [none] }
    else emitted

def cc (w : Observer Channel) (ch : Channel) : Observer Channel :=
  { w with
    scores := w.scores.erase ch
    currentBestChannel := if w.currentBestChannel = some ch then none else w.currentBestChannel
    merged := w.merged ++ [some ch] }

def expire (w : Observer Channel) (ch : Channel) : Observer Channel :=
  { w with scores := w.scores.erase ch }

/-- The choice that is made when an item leaves the merge. -/
def choose (w : Observer Channel) (order : Listing Channel) (maybeClosedChannel : Option Channel) :
    SyncWith Channel :=
  calcSyncWith order (w.currentBestChannel.filter fun c => maybeClosedChannel ≠ some c) w.localScore
    w.scores

/-- `distinctUntilChanged` of what is published. -/
def publish (published : List (ChannelClosedAndSyncWith Channel))
    (item : ChannelClosedAndSyncWith Channel) : List (ChannelClosedAndSyncWith Channel) :=
  if published.getLast? = some item then published else published ++ [item]

def handle (w : Observer Channel) (order : Listing Channel) : Observer Channel :=
  match w.merged with
  | [] => w
  | maybeClosedChannel :: rest =>
    let sw := w.choose order maybeClosedChannel
    { w with
      currentBestChannel := sw.map BestChannel.channel
      merged := rest
      published := publish w.published ⟨maybeClosedChannel, sw⟩ }

def step (w : Observer Channel) : Event Channel → Observer Channel
  | .localScore score => w.ls score
  | .remoteScore ch score => w.report ch score
  | .silent ch isOpen => w.rs ch isOpen
  | .closed ch => w.cc ch
  | .expired ch => w.expire ch
  | .handle order => w.handle order

/-- The observer after the events, from its creation on. -/
def run (initalLocalScore : ℤ) (events : List (Event Channel)) : Observer Channel :=
  EventRun.after step { localScore := initalLocalScore } events

/-! ## 3. The choice -/

/-- A channel with the greatest score, which is greater than the node's own. Negative
scores do not count. -/
structure IsBest (w : Observer Channel) (best : BestChannel Channel) : Prop where
  score : w.scores.get? best.channel = some best.score
  nonneg : 0 ≤ best.score
  ahead : w.localScore < best.score
  greatest : ∀ ch score, w.scores.get? ch = some score → score ≤ best.score

/-- What the node should synchronize with. -/
def Right (w : Observer Channel) : SyncWith Channel → Prop
  | some best => w.IsBest best
  | none => ∀ ch score, w.scores.get? ch = some score → score < 0 ∨ score ≤ w.localScore

/-- What a choice depends on. -/
theorem Right.congr {w w' : Observer Channel} {sw : SyncWith Channel} (h : w.Right sw)
    (hscores : w'.scores = w.scores) (hlocal : w'.localScore = w.localScore) : w'.Right sw := by
  cases sw with
  | none =>
    intro ch score hget
    rw [hscores] at hget
    rw [hlocal]
    exact h ch score hget
  | some best =>
    refine ⟨?_, h.nonneg, ?_, ?_⟩
    · rw [hscores]
      exact h.score
    · rw [hlocal]
      exact h.ahead
    · rw [hscores]
      exact h.greatest

variable {w : Observer Channel}

/-- Whatever the order and the channel preferred, the choice is right. -/
theorem right_calcSyncWith (order : Listing Channel) (bestChannel : Option Channel) :
    w.Right (calcSyncWith order bestChannel w.localScore w.scores) := by
  have hspec := keepBest_spec 0 (entries order w.scores)
  unfold calcSyncWith
  generalize (entries order w.scores).foldl keepBest (0, []) = r at hspec ⊢
  obtain ⟨bestScore, channels⟩ := r
  simp only [mem_entries] at hspec
  obtain ⟨hleast, hbound, hkept, hnobody⟩ := hspec
  dsimp only
  split
  · rename_i hahead
    -- whoever is kept may be chosen
    have hbest : ∀ c ∈ channels, w.IsBest ⟨c, bestScore⟩ := fun c hc =>
      ⟨(hkept c).mp hc, hleast, hahead, hbound⟩
    cases channels with
    | nil =>
      -- the fold starts from zero, and no score is zero or greater
      intro ch score hget
      have hzero := hnobody rfl
      have hle := hbound ch score hget
      have hne : score ≠ bestScore := by
        rintro rfl
        simpa using (hkept ch).mpr hget
      omega
    | cons head rest =>
      have hhead := hbest head (by simp)
      cases bestChannel with
      | none => exact hhead
      | some c =>
        dsimp only
        split
        · rename_i hc
          exact hbest c hc
        · exact hhead
  · rename_i hbehind
    intro ch score hget
    have hle := hbound ch score hget
    omega

/-- A preferred channel that is among the best is chosen. -/
theorem calcSyncWith_of_isBest (order : Listing Channel) {best : BestChannel Channel}
    (h : w.IsBest best) :
    calcSyncWith order (some best.channel) w.localScore w.scores = some best := by
  have hspec := keepBest_spec 0 (entries order w.scores)
  unfold calcSyncWith
  generalize (entries order w.scores).foldl keepBest (0, []) = r at hspec ⊢
  obtain ⟨bestScore, channels⟩ := r
  simp only [mem_entries] at hspec
  obtain ⟨hleast, hbound, hkept, hnobody⟩ := hspec
  dsimp only at hleast hbound hkept hnobody ⊢
  have hle := hbound _ _ h.score
  -- the greatest score is the score of this channel
  have hsame : bestScore = best.score := by
    rcases hchannels : channels with _ | ⟨c, rest⟩
    · have hzero := hnobody hchannels
      have hnonneg := h.nonneg
      omega
    · have hge := h.greatest c bestScore ((hkept c).mp (by simp [hchannels]))
      omega
  subst hsame
  have hmem : best.channel ∈ channels := (hkept _).mpr h.score
  rw [if_pos h.ahead]
  cases channels with
  | nil => simp at hmem
  | cons head rest =>
    dsimp only
    rw [if_pos hmem]

/-- A channel without a score is not chosen. -/
theorem calcSyncWith_ne {order : Listing Channel} {bestChannel : Option Channel} {ch : Channel}
    (h : w.scores.get? ch = none) :
    (calcSyncWith order bestChannel w.localScore w.scores).map BestChannel.channel ≠ some ch := by
  intro hchosen
  have hright := right_calcSyncWith (w := w) order bestChannel
  obtain ⟨best, hbest, rfl⟩ := Option.map_eq_some_iff.mp hchosen
  rw [hbest] at hright
  rw [hright.score] at h
  cases h

/-! ## 4. What is published is up to date -/

/-- Once everything is handled, the last item published is right. -/
def UpToDate (w : Observer Channel) : Prop :=
  w.merged = [] → ∃ item, w.published.getLast? = some item ∧ w.Right item.syncWith

@[simp] theorem getLast?_publish (published : List (ChannelClosedAndSyncWith Channel))
    (item : ChannelClosedAndSyncWith Channel) :
    (publish published item).getLast? = some item := by
  unfold publish
  split
  · assumption
  · simp

/-- Handling an item brings the observer up to date. -/
theorem upToDate_handle (order : Listing Channel) (h : w.merged ≠ []) :
    (w.handle order).UpToDate := by
  intro _
  unfold handle
  cases hmerged : w.merged with
  | nil => exact absurd hmerged h
  | cons maybeClosedChannel rest =>
    exact ⟨_, getLast?_publish _ _, (right_calcSyncWith order _).congr rfl rfl⟩

theorem UpToDate.congr (h : w.UpToDate) {w' : Observer Channel} (hscores : w'.scores = w.scores)
    (hlocal : w'.localScore = w.localScore) (hmerged : w'.merged = w.merged)
    (hpublished : w'.published = w.published) : w'.UpToDate := by
  intro hempty
  rw [hmerged] at hempty
  obtain ⟨item, hitem, hright⟩ := h hempty
  rw [hpublished]
  exact ⟨item, hitem, hright.congr hscores hlocal⟩

/-- Only an expired score can leave the last item behind. -/
theorem UpToDate.step (h : w.UpToDate) {e : Event Channel} (he : ∀ ch, e ≠ .expired ch) :
    (w.step e).UpToDate := by
  cases e with
  | localScore score =>
    unfold Observer.step ls
    dsimp only
    split
    · exact h
    · intro hmerged
      simp at hmerged
  | remoteScore ch score =>
    unfold Observer.step report
    dsimp only
    split
    · exact h
    · exact h.congr rfl rfl rfl rfl
  | silent ch isOpen =>
    unfold Observer.step rs
    dsimp only
    split
    · exact h
    · split
      · intro hmerged
        simp at hmerged
      · exact h.congr rfl rfl rfl rfl
  | closed ch =>
    intro hmerged
    simp [Observer.step, cc] at hmerged
  | expired ch => exact absurd rfl (he ch)
  | handle order =>
    by_cases hmerged : w.merged = []
    · have hsame : w.step (.handle order) = w := by
        simp [Observer.step, Observer.handle, hmerged]
      rw [hsame]
      exact h
    · exact upToDate_handle order hmerged

/-- In every run, once an item was handled and until a score expires: whenever everything is
handled, the last item published names a channel with the greatest score, if that is greater
than the node's own, and no channel else. -/
theorem upToDate_run (initalLocalScore : ℤ) (past later : List (Event Channel))
    (order : Listing Channel) (hhandled : (run initalLocalScore past).merged ≠ [])
    (hlater : ∀ ch, .expired ch ∉ later) :
    (run initalLocalScore (past ++ .handle order :: later)).UpToDate := by
  unfold run at hhandled ⊢
  rw [EventRun.after_append]
  generalize EventRun.after step _ past = w at hhandled ⊢
  -- what comes later is taken from the right
  induction later using List.reverseRecOn with
  | nil => exact upToDate_handle order hhandled
  | append_singleton later e ih =>
    have hrun : EventRun.after step w (.handle order :: (later ++ [e])) =
        (EventRun.after step w (.handle order :: later)).step e :=
      EventRun.after_concat step w (.handle order :: later) e
    rw [hrun]
    refine (ih ?_).step ?_
    · intro ch hmem
      exact hlater ch (by simp [hmem])
    · rintro ch rfl
      exact hlater ch (by simp)

/-- A listing by ascending keys. -/
def ascendingListing : Listing ℕ := fun s =>
  ⟨FiniteMap.ascending s, FiniteMap.nodup_ascending s, fun _ => FiniteMap.mem_ascending⟩

/-- The first peer reports a score. -/
def firstScore : List (Event ℕ) := [.remoteScore 1 5, .silent 1 true]

theorem upToDate_run_firstScore :
    (run 3 (firstScore ++ .handle ascendingListing :: [.remoteScore 2 5])).merged = [] ∧
      (run 3 (firstScore ++ .handle ascendingListing :: [.remoteScore 2 5])).UpToDate :=
  ⟨by decide, upToDate_run 3 firstScore [.remoteScore 2 5] ascendingListing (by decide) (by simp)⟩

/-! ## 5. The best channel is kept -/

/-- The channel is the one preferred, and nothing that waits says that it is closed. -/
structure Prefers (w : Observer Channel) (c : Channel) : Prop where
  current : w.currentBestChannel = some c
  merged : some c ∉ w.merged

/-- Until it is closed a preferred channel stays the one preferred, as long as it is among the
best whenever an item is handled. What is published then names it. -/
theorem Prefers.step {c : Channel} (h : w.Prefers c) {e : Event Channel}
    (hopen : e ≠ .closed c)
    (hbest : ∀ order, e = .handle order → w.merged ≠ [] → ∃ score, w.IsBest ⟨c, score⟩) :
    (w.step e).Prefers c ∧ ∀ item ∈ (w.step e).published,
      item ∈ w.published ∨ item.syncWith.map BestChannel.channel = some c := by
  have hsame : ∀ item ∈ w.published,
      item ∈ w.published ∨ item.syncWith.map BestChannel.channel = some c := fun _ => .inl
  cases e with
  | localScore score =>
    unfold Observer.step ls
    dsimp only
    split
    · exact ⟨h, hsame⟩
    · exact ⟨⟨h.current, by simpa using h.merged⟩, hsame⟩
  | remoteScore ch score =>
    unfold Observer.step report
    dsimp only
    split
    · exact ⟨h, hsame⟩
    · exact ⟨⟨h.current, h.merged⟩, hsame⟩
  | silent ch isOpen =>
    unfold Observer.step rs
    dsimp only
    split
    · exact ⟨h, hsame⟩
    · split
      · exact ⟨⟨h.current, by simpa using h.merged⟩, hsame⟩
      · exact ⟨⟨h.current, h.merged⟩, hsame⟩
  | closed ch =>
    have hne : ch ≠ c := by
      rintro rfl
      exact hopen rfl
    exact ⟨⟨by simp [Observer.step, cc, h.current, hne.symm],
      by simp [Observer.step, cc, h.merged, hne.symm]⟩, hsame⟩
  | expired ch => exact ⟨⟨h.current, h.merged⟩, hsame⟩
  | handle order =>
    unfold Observer.step Observer.handle
    dsimp only
    split
    · exact ⟨h, hsame⟩
    · rename_i maybeClosedChannel rest hmerged
      obtain ⟨score, hscore⟩ := hbest order rfl (by simp [hmerged])
      have hwaiting := h.merged
      rw [hmerged] at hwaiting
      simp only [List.mem_cons, not_or] at hwaiting
      -- the item does not say that the channel is closed, so it is preferred
      have hchosen : w.choose order maybeClosedChannel = some ⟨c, score⟩ := by
        have hfilter : (w.currentBestChannel.filter fun c => maybeClosedChannel ≠ some c) =
            some c := by
          simp [h.current, Ne.symm hwaiting.1]
        rw [choose, hfilter]
        exact calcSyncWith_of_isBest order hscore
      refine ⟨⟨by simp [hchosen], hwaiting.2⟩, ?_⟩
      intro item hitem
      dsimp only at hitem
      unfold publish at hitem
      split at hitem
      · exact .inl hitem
      · rcases List.mem_append.mp hitem with hitem | hitem
        · exact .inl hitem
        · rw [List.mem_singleton.mp hitem, hchosen]
          exact .inr rfl

/-- From any state that prefers a channel, and over any events that do not close it: as long as
it is among the best whenever an item is handled, no other channel is published. -/
theorem published_sticky {c : Channel} (h : w.Prefers c) (later : List (Event Channel))
    (hopen : .closed c ∉ later)
    (hbest : ∀ before order, before ++ [.handle order] <+: later →
      (EventRun.after step w before).merged ≠ [] →
        ∃ score, (EventRun.after step w before).IsBest ⟨c, score⟩) :
    ∀ item ∈ (EventRun.after step w later).published,
      item ∈ w.published ∨ item.syncWith.map BestChannel.channel = some c := by
  suffices hall : (EventRun.after step w later).Prefers c ∧
      ∀ item ∈ (EventRun.after step w later).published,
        item ∈ w.published ∨ item.syncWith.map BestChannel.channel = some c from hall.2
  induction later using List.reverseRecOn with
  | nil => exact ⟨h, fun _ => .inl⟩
  | append_singleton later e ih =>
    rw [EventRun.after_concat]
    obtain ⟨hprefers, hpublished⟩ := ih (fun hmem => hopen (by simp [hmem]))
      (fun before order hbefore =>
        hbest before order (hbefore.trans (List.prefix_append _ _)))
    obtain ⟨hnext, hnew⟩ := hprefers.step (e := e) (by rintro rfl; exact hopen (by simp))
      (by
        rintro order rfl hmerged
        exact hbest later order (List.prefix_refl _) hmerged)
    refine ⟨hnext, ?_⟩
    intro item hitem
    rcases hnew item hitem with hold | hchannel
    · exact hpublished item hold
    · exact .inr hchannel

/-- The node synchronizes with the first peer. -/
def firstChosen : Observer ℕ := run 3 (firstScore ++ [.handle ascendingListing])

/-- The second peer reaches the score of the first. -/
def secondScore : List (Event ℕ) := [.remoteScore 2 5, .silent 2 true]

theorem published_sticky_secondScore :
    (EventRun.after step firstChosen secondScore).scores.get? 2 = some 5 ∧
      ∀ item ∈ (EventRun.after step firstChosen
          (secondScore ++ [.handle ascendingListing])).published,
        item ∈ firstChosen.published ∨ item.syncWith.map BestChannel.channel = some 1 := by
  have hscores : ∀ ch ∈ (EventRun.after step firstChosen secondScore).scores.dom,
      (EventRun.after step firstChosen secondScore).scores.getOrElse ch 0 ≤ 5 := by
    decide
  refine ⟨by decide, published_sticky ⟨by decide, by decide⟩ _ (by simp [secondScore]) ?_⟩
  intro before order hstart hmerged
  -- the only item is handled last
  have hbefore : before = secondScore := by
    obtain ⟨rest, hrest⟩ := hstart
    rcases before with _ | ⟨e₁, _ | ⟨e₂, _ | ⟨e₃, before⟩⟩⟩ <;> simp [secondScore] at hrest
    rw [hrest.1, hrest.2.1, secondScore]
  subst hbefore
  refine ⟨5, by decide, by decide, by decide, ?_⟩
  intro ch score hget
  have hle := hscores ch (FiniteMap.mem_dom_of_get? hget)
  rwa [FiniteMap.getOrElse, hget] at hle

/-! ## 6. A score that is lost -/

/-- The channel has no score, none waits, and the last one it reported was this. -/
structure Lost (w : Observer Channel) (ch : Channel) (score : ℤ) : Prop where
  scores : w.scores.get? ch = none
  debounced : w.debounced.get? ch = none
  lastScores : w.lastScores.get? ch = some score

/-- A lost score that is reported again is dropped as a duplicate. -/
theorem Lost.step {ch : Channel} {score : ℤ} (h : w.Lost ch score) {e : Event Channel}
    (he : ∀ score', e = .remoteScore ch score' → score' = score) :
    (w.step e).Lost ch score ∧ ∀ item ∈ (w.step e).published,
      item ∈ w.published ∨ item.syncWith.map BestChannel.channel ≠ some ch := by
  have hsame : ∀ item ∈ w.published,
      item ∈ w.published ∨ item.syncWith.map BestChannel.channel ≠ some ch := fun _ => .inl
  cases e with
  | localScore x =>
    unfold Observer.step ls
    dsimp only
    split
    · exact ⟨h, hsame⟩
    · exact ⟨⟨h.scores, h.debounced, h.lastScores⟩, hsame⟩
  | remoteScore ch' score' =>
    unfold Observer.step report
    dsimp only
    split
    · exact ⟨h, hsame⟩
    · rename_i hdistinct
      -- another channel, since this one reports what it reported last
      have hne : ch' ≠ ch := by
        rintro rfl
        rw [he score' rfl] at hdistinct
        exact hdistinct h.lastScores
      refine ⟨⟨h.scores, ?_, ?_⟩, hsame⟩
      · rw [FiniteMap.get?_insert, if_neg hne.symm]
        exact h.debounced
      · rw [FiniteMap.get?_insert, if_neg hne.symm]
        exact h.lastScores
  | silent ch' isOpen =>
    unfold Observer.step rs
    dsimp only
    split
    · exact ⟨h, hsame⟩
    · rename_i score' hwaiting
      have hne : ch' ≠ ch := by
        rintro rfl
        rw [h.debounced] at hwaiting
        cases hwaiting
      have hdebounced : (w.debounced.erase ch').get? ch = none := by
        rw [FiniteMap.get?_erase, if_neg hne.symm]
        exact h.debounced
      split
      · refine ⟨⟨?_, hdebounced, h.lastScores⟩, hsame⟩
        rw [FiniteMap.get?_insert, if_neg hne.symm]
        exact h.scores
      · exact ⟨⟨h.scores, hdebounced, h.lastScores⟩, hsame⟩
  | closed ch' =>
    refine ⟨⟨?_, h.debounced, h.lastScores⟩, hsame⟩
    unfold Observer.step cc
    rw [FiniteMap.get?_erase, h.scores]
    exact ite_self _
  | expired ch' =>
    refine ⟨⟨?_, h.debounced, h.lastScores⟩, hsame⟩
    unfold Observer.step expire
    rw [FiniteMap.get?_erase, h.scores]
    exact ite_self _
  | handle order =>
    unfold Observer.step Observer.handle
    dsimp only
    split
    · exact ⟨h, hsame⟩
    · refine ⟨⟨h.scores, h.debounced, h.lastScores⟩, ?_⟩
      intro item hitem
      dsimp only at hitem
      unfold publish at hitem
      split at hitem
      · exact .inl hitem
      · rcases List.mem_append.mp hitem with hitem | hitem
        · exact .inl hitem
        · rw [List.mem_singleton.mp hitem]
          exact .inr (calcSyncWith_ne h.scores)

/-- A lost score that is only repeated stays lost. -/
theorem published_of_lost {ch : Channel} {score : ℤ} (h : w.Lost ch score)
    (later : List (Event Channel))
    (hlater : ∀ score', .remoteScore ch score' ∈ later → score' = score) :
    ∀ item ∈ (EventRun.after step w later).published,
      item ∈ w.published ∨ item.syncWith.map BestChannel.channel ≠ some ch := by
  suffices hall : (EventRun.after step w later).Lost ch score ∧
      ∀ item ∈ (EventRun.after step w later).published,
        item ∈ w.published ∨ item.syncWith.map BestChannel.channel ≠ some ch from hall.2
  induction later using List.reverseRecOn with
  | nil => exact ⟨h, fun _ => .inl⟩
  | append_singleton later e ih =>
    rw [EventRun.after_concat]
    obtain ⟨hlost, hpublished⟩ := ih fun score' hmem => hlater score' (by simp [hmem])
    obtain ⟨hnext, hnew⟩ := hlost.step (e := e) (by
      rintro score' rfl
      exact hlater score' (by simp))
    refine ⟨hnext, ?_⟩
    intro item hitem
    rcases hnew item hitem with hold | hother
    · exact hpublished item hold
    · exact .inr hother

/-- The first peer reports the score it had. -/
def repeatedScore : List (Event ℕ) :=
  [.remoteScore 1 5, .silent 1 true, .localScore 4, .handle ascendingListing]

end Observer

end RxScoreObserver

end WavesNode
