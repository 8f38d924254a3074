/-
The extension loader: how blocks of a longer chain are fetched from one peer and handed
to the applier.

The loader waits for the signatures of a peer, then for the blocks that it requested,
and hands the extension over when it has all of them. While one extension is being
applied it may load the next one, which it keeps until the first is applied. Each wait
has a timeout that blacklists the peer.

The handlers run one after another. What they read of the rest of the node comes with
the event: the peer to synchronize with, the last block ids and the blocks known to be
invalid, whatever they are at that moment.
-/
import WavesNode.Block
import WavesNode.EventRuns

set_option autoImplicit false

namespace WavesNode

namespace RxExtensionLoader

/-! ## 1. The state of the loader -/

structure BestChannel (Channel : Type) where
  channel : Channel
  score : ℤ
  deriving DecidableEq

abbrev SyncWith (Channel : Type) := Option (BestChannel Channel)

structure ChannelClosedAndSyncWith (Channel : Type) where
  closed : Option Channel
  syncWith : SyncWith Channel
  deriving DecidableEq

structure ExtensionBlocks where
  blocks : List Block
  deriving DecidableEq

abbrev ApplyExtensionResult := Except ValidationError (Option ℤ)

/-- `CancelableFuture[Unit]`: the number of a timeout among all those scheduled. -/
abbrev TimeoutId := ℕ

inductive LoaderState (Channel : Type) where
  | Idle
  | ExpectingSignatures (channel : Channel) (known : List BlockId) (timeout : TimeoutId)
  | ExpectingBlocks (channel : Channel) (allBlocks : List BlockId) (expected : Finset BlockId)
      (received : List Block) (timeout : TimeoutId)
  deriving DecidableEq

/-- `WithPeer.timeout`. -/
def LoaderState.timeout {Channel : Type} : LoaderState Channel → Option TimeoutId
  | .Idle => none
  | .ExpectingSignatures _ _ timeout => some timeout
  | .ExpectingBlocks _ _ _ _ timeout => some timeout

/-- `WithPeer.channel`. -/
def LoaderState.channel {Channel : Type} : LoaderState Channel → Option Channel
  | .Idle => none
  | .ExpectingSignatures channel _ _ => some channel
  | .ExpectingBlocks channel _ _ _ _ => some channel

structure Buffer (Channel : Type) where
  ch : Channel
  ext : ExtensionBlocks
  deriving DecidableEq

inductive ApplierState (Channel : Type) where
  | Idle
  | Applying (buf : Option (Buffer Channel)) (applying : ExtensionBlocks)
  deriving DecidableEq

structure State (Channel : Type) where
  loaderState : LoaderState Channel
  applierState : ApplierState Channel
  deriving DecidableEq

/-- Why a peer is blacklisted. -/
inductive BlacklistReason where
  /-- "Timeout loading extension" -/
  | loadingExtension
  /-- "Timeout loading first requested block" -/
  | loadingFirstBlock
  /-- "Timeout loading one of requested blocks, non-received: ", and the last requested id
  if one is left, else how many are. -/
  | loadingRequested (totalleft : ℕ) (last : Option BlockId)
  /-- "Signatures contain invalid block(s): ", the id and why it is invalid. -/
  | invalidBlock (id : BlockId) (reason : ValidationError)

structure Timeout (Channel : Type) where
  id : TimeoutId
  channel : Channel
  reason : BlacklistReason

/-- What goes out: to peers, to the applier and to the rest of the node. -/
inductive Output (Channel : Type) where
  | getSignatures (ch : Channel) (known : List BlockId)
  /-- `GetBlock` for each id, written in this order and flushed. -/
  | getBlocks (ch : Channel) (ids : List BlockId)
  | blacklistAndClose (ch : Channel) (reason : BlacklistReason)
  /-- To `timeoutSubject`. -/
  | timedOut (ch : Channel)
  /-- To `extensions`. -/
  | extension (ch : Channel) (ext : ExtensionBlocks)
  /-- To `simpleBlocks`. -/
  | simpleBlock (ch : Channel) (block : Block)

/-- The loader and what it left in its environment: the timeouts pending, what went out,
the extensions handed to the applier and not applied yet (the first is being applied),
and whether a handler threw, which ends all handling. -/
structure Loader (Channel : Type) where
  state : State Channel := ⟨.Idle, .Idle⟩
  nextTimeout : TimeoutId := 0
  pending : List (Timeout Channel) := []
  outputs : List (Output Channel) := []
  extensions : List (Channel × ExtensionBlocks) := []
  failed : Bool := false

/-- What the handlers read of the rest of the node. -/
structure Env (Channel : Type) where
  lastSyncWith : SyncWith Channel
  lastBlockIds : List BlockId
  invalidBlocks : BlockId → Option ValidationError

/-! ## 2. The handlers -/

variable {Channel : Type} [DecidableEq Channel]

namespace Loader

variable (w : Loader Channel)

def loaderState : LoaderState Channel := w.state.loaderState

def applierState : ApplierState Channel := w.state.applierState

def emit (output : Output Channel) : Loader Channel :=
  { w with outputs := w.outputs ++ [output] }

/-- `extensions.onNext(ch -> extension)`. -/
def onNextExtension (ch : Channel) (extension : ExtensionBlocks) : Loader Channel :=
  { w.emit (.extension ch extension) with extensions := w.extensions ++ [(ch, extension)] }

/-- The timeout gets the number `w.nextTimeout`. -/
def scheduleBlacklist (ch : Channel) (reason : BlacklistReason) : Loader Channel :=
  { w with
    nextTimeout := w.nextTimeout + 1
    pending := w.pending ++ [⟨w.nextTimeout, ch, reason⟩] }

/-- The timeout of the state that is left is cancelled. -/
def withLoaderState (newLoaderState : LoaderState Channel) : Loader Channel :=
  { w with
    state := ⟨newLoaderState, w.applierState⟩
    pending := w.pending.filter fun t => w.loaderState.timeout ≠ some t.id }

def withIdleLoader : Loader Channel := w.withLoaderState .Idle

def withApplierState (newApplierState : ApplierState Channel) : Loader Channel :=
  { w with state := ⟨w.loaderState, newApplierState⟩ }

/-- The signatures to continue from: the last blocks of the chain or, optimistically, the
extension being applied. -/
def maybeKnownSigs (env : Env Channel) : Option (List BlockId × Bool) :=
  match w.applierState with
  | .Idle => some (env.lastBlockIds, false)
  | .Applying none ext => some ((ext.blocks.map Block.uniqueId).reverse, true)
  | .Applying (some _) _ => none

def syncNext (env : Env Channel) (syncWith : SyncWith Channel) : Loader Channel :=
  match syncWith with
  | none => w.withIdleLoader
  | some best =>
    match w.loaderState with
    | .ExpectingSignatures .. => w
    | .ExpectingBlocks .. => w
    | .Idle =>
      match w.maybeKnownSigs env with
      | none => w
      | some (knownSigs, _) =>
        let ch := best.channel
        let scheduled := w.scheduleBlacklist ch .loadingExtension
        (scheduled.emit (.getSignatures ch knownSigs)).withLoaderState
          (.ExpectingSignatures ch knownSigs w.nextTimeout)

def onNewSyncWithChannelClosed (env : Env Channel) (cc : ChannelClosedAndSyncWith Channel) :
    Loader Channel :=
  match cc.syncWith with
  | none =>
    match w.loaderState with
    | .Idle => w
    | _ => w.withIdleLoader
  | some bestChannel =>
    match cc.closed with
    | none => w.syncNext env (some bestChannel)
    | some closedChannel =>
      if w.loaderState.channel.any (closedChannel ≠ ·) then w
      else w.withIdleLoader.syncNext env (some bestChannel)

def onNewSignatures (env : Env Channel) (ch : Channel) (sigs : List BlockId) : Loader Channel :=
  match w.loaderState with
  | .ExpectingSignatures c known _ =>
    if c = ch then
      let unknown := sigs.dropWhile (· ∈ known)
      let firstInvalid := (sigs.filterMap fun sig =>
        (env.invalidBlocks sig).map fun reason => (sig, reason)).head?
      match firstInvalid with
      | some (invalidBlock, reason) =>
        (w.emit (.blacklistAndClose ch (.invalidBlock invalidBlock reason))).withIdleLoader.syncNext
          env env.lastSyncWith
      | none =>
        if unknown = [] then w.withIdleLoader
        else
          let scheduled := w.scheduleBlacklist ch .loadingFirstBlock
          (scheduled.emit (.getBlocks ch unknown)).withLoaderState
            (.ExpectingBlocks ch unknown unknown.toFinset [] w.nextTimeout)
    else w
  | _ => w

def extensionLoadingFinished (env : Env Channel) (extension : ExtensionBlocks) (ch : Channel) :
    Loader Channel :=
  match w.applierState with
  | .Idle =>
    ((w.onNextExtension ch extension).withApplierState (.Applying none extension)).syncNext env
      env.lastSyncWith
  | .Applying none applying => w.withApplierState (.Applying (some ⟨ch, extension⟩) applying)
  | .Applying (some _) _ => w

/-- `requested.map(blockById)` over the blocks received: it throws at an id that none of
them has. -/
def assemble (requested : List BlockId) (blocks : List Block) : Option ExtensionBlocks :=
  let blockById := FiniteMap.ofList (blocks.map fun b => (b.uniqueId, b))
  (requested.mapM blockById.get?).map .mk

def onBlock (env : Env Channel) (ch : Channel) (block : Block) : Loader Channel :=
  match w.loaderState with
  | .ExpectingBlocks c requested expected recieved _ =>
    if c = ch ∧ block.uniqueId ∈ expected then
      if expected = {block.uniqueId} then
        match assemble requested (recieved.insert block) with
        | none => { w with failed := true }
        | some ext => w.withIdleLoader.extensionLoadingFinished env ext ch
      else
        let totalleft := expected.card - 1
        let reason := .loadingRequested totalleft
          (if totalleft = 1 then requested.getLast? else none)
        (w.scheduleBlacklist ch reason).withLoaderState
          (.ExpectingBlocks c requested (expected.erase block.uniqueId) (recieved.insert block)
            w.nextTimeout)
    else w.emit (.simpleBlock ch block)
  | _ => w.emit (.simpleBlock ch block)

def onExtensionApplied (env : Env Channel)
    (applicationResult : ApplyExtensionResult) : Loader Channel :=
  match w.applierState with
  | .Idle => w
  | .Applying none _ => w.withApplierState .Idle
  | .Applying (some ⟨nextChannel, nextExtension⟩) _ =>
    match applicationResult with
    | .error _ => (w.withApplierState .Idle).syncNext env env.lastSyncWith
    | .ok _ =>
      ((w.onNextExtension nextChannel nextExtension).withApplierState
        (.Applying none nextExtension)).syncNext env env.lastSyncWith

end Loader

/-- What may happen next. -/
inductive Event (Channel : Type) where
  | signatures (ch : Channel) (sigs : List BlockId) (env : Env Channel)
  | block (ch : Channel) (block : Block) (env : Env Channel)
  | syncWithChannelClosed (cc : ChannelClosedAndSyncWith Channel) (env : Env Channel)
  /-- The applier is done with the first of the extensions it was given. -/
  | extensionApplied (result : ApplyExtensionResult) (env : Env Channel)
  /-- A timeout elapses; nothing happens if it was cancelled. -/
  | timeout (id : TimeoutId)

def step (w : Loader Channel) (e : Event Channel) : Loader Channel :=
  if w.failed then w
  else
    match e with
    | .signatures ch sigs env => w.onNewSignatures env ch sigs
    | .block ch block env => w.onBlock env ch block
    | .syncWithChannelClosed cc env => w.onNewSyncWithChannelClosed env cc
    | .extensionApplied result env =>
      match w.extensions with
      | [] => w
      | _ :: rest => { w with extensions := rest }.onExtensionApplied env result
    | .timeout id =>
      match w.pending.find? (·.id = id) with
      | none => w
      | some t =>
        { w with
          pending := w.pending.filter (·.id ≠ id)
          outputs := w.outputs ++ [.timedOut t.channel, .blacklistAndClose t.channel t.reason] }

/-- The loader after the events, from the start of the node. -/
def run (events : List (Event Channel)) : Loader Channel := EventRun.after step {} events

/-! ## 3. Timeouts

A timeout is pending only while the loader waits in the state that scheduled it: every
change of the loader's state goes through `withLoaderState`, and a number is used once. -/

/-- The pending timeouts are those of the state that the loader waits in. -/
structure Timely (w : Loader Channel) : Prop where
  pending : ∀ t ∈ w.pending, w.loaderState.timeout = some t.id
  used : ∀ id, w.loaderState.timeout = some id → id < w.nextTimeout

/-- How the timeout waited for may change: it stays, nothing is waited for any more, or a
new one is. -/
structure Advances (w w' : Loader Channel) : Prop where
  next : w.nextTimeout ≤ w'.nextTimeout
  timeout : w'.loaderState.timeout = w.loaderState.timeout ∨ w'.loaderState.timeout = none ∨
    ∃ id, w'.loaderState.timeout = some id ∧ w.nextTimeout ≤ id

section Timeouts

omit [DecidableEq Channel]

variable {w w' w'' : Loader Channel}

theorem Advances.refl (w : Loader Channel) : Advances w w := ⟨le_refl _, .inl rfl⟩

theorem Advances.trans (h : Advances w w') (h' : Advances w' w'') : Advances w w'' := by
  refine ⟨h.next.trans h'.next, ?_⟩
  rcases h'.timeout with h₁ | h₁ | ⟨id, h₁, hle⟩
  · rw [h₁]
    exact h.timeout
  · exact .inr (.inl h₁)
  · exact .inr (.inr ⟨id, h₁, h.next.trans hle⟩)

/-- Going idle cancels the timeout. -/
theorem Timely.withIdleLoader (h : Timely w) : Timely w.withIdleLoader := by
  refine ⟨fun t ht => ?_, fun id hid => by cases hid⟩
  have hmem := List.mem_filter.mp ht
  exact absurd (h.pending t hmem.1) (of_decide_eq_true hmem.2)

theorem advances_withIdleLoader (w : Loader Channel) : Advances w w.withIdleLoader :=
  ⟨le_refl _, .inr (.inl rfl)⟩

/-- Waiting anew schedules a timeout, and cancels the one waited for before. -/
theorem Timely.wait (h : Timely w) (ch : Channel) (reason : BlacklistReason)
    {newState : LoaderState Channel} (hnew : newState.timeout = some w.nextTimeout) :
    Timely ((w.scheduleBlacklist ch reason).withLoaderState newState) := by
  refine ⟨fun t ht => ?_, fun id hid => ?_⟩
  · have hmem := List.mem_filter.mp ht
    rcases List.mem_append.mp hmem.1 with hold | hthis
    · exact absurd (h.pending t hold) (of_decide_eq_true hmem.2)
    · rw [List.mem_singleton] at hthis
      rw [hthis]
      exact hnew
  · have heq : id = w.nextTimeout := Option.some.inj (hid.symm.trans hnew)
    rw [heq]
    exact Nat.lt_succ_self _

theorem advances_wait (w : Loader Channel) (ch : Channel) (reason : BlacklistReason)
    (newState : LoaderState Channel) (hnew : newState.timeout = some w.nextTimeout) :
    Advances w ((w.scheduleBlacklist ch reason).withLoaderState newState) :=
  ⟨Nat.le_succ _, .inr (.inr ⟨w.nextTimeout, hnew, le_refl _⟩)⟩

/-- Only the loader's state and the timeouts matter. -/
theorem Timely.congr (h : Timely w) (hstate : w'.loaderState = w.loaderState)
    (hnext : w'.nextTimeout = w.nextTimeout) (hpending : w'.pending ⊆ w.pending) : Timely w' := by
  refine ⟨fun t ht => ?_, fun id hid => ?_⟩
  · rw [hstate]
    exact h.pending t (hpending ht)
  · rw [hstate] at hid
    rw [hnext]
    exact h.used id hid

theorem Advances.of_eq (hstate : w'.loaderState = w.loaderState)
    (hnext : w'.nextTimeout = w.nextTimeout) : Advances w w' :=
  ⟨le_of_eq hnext.symm, .inl (by rw [hstate])⟩

/-- Something that matters to neither the state nor the timeouts comes first. -/
theorem Advances.before (h : Advances w' w'') (hstate : w'.loaderState = w.loaderState)
    (hnext : w'.nextTimeout = w.nextTimeout) : Advances w w'' :=
  (Advances.of_eq hstate hnext).trans h

end Timeouts

/-! ## 4. What the handlers do

Between loading one extension and the next, the handlers only go idle or ask a peer for
its signatures. -/

/-- `GetSignatures` or a blacklisting. -/
def Output.isControl : Output Channel → Bool
  | .getSignatures .. | .blacklistAndClose .. | .timedOut .. => true
  | _ => false

def ApplierState.buffer : ApplierState Channel → Option (Buffer Channel)
  | .Idle => none
  | .Applying buf _ => buf

/-- The loader may have gone idle, or asked for signatures, and nothing else. -/
structure Resyncs (w w' : Loader Channel) : Prop where
  applier : w'.applierState = w.applierState
  extensions : w'.extensions = w.extensions
  failed : w'.failed = w.failed
  outputs : ∃ new, w'.outputs = w.outputs ++ new ∧ ∀ o ∈ new, o.isControl
  loader : w'.loaderState = w.loaderState ∨ w'.loaderState = .Idle ∨
    w.applierState.buffer = none ∧ ∃ ch known id, w'.loaderState = .ExpectingSignatures ch known id
  timely : Timely w → Timely w'
  advances : Advances w w'

section Resync

omit [DecidableEq Channel]

variable {w w' w'' : Loader Channel}

theorem Resyncs.refl (w : Loader Channel) : Resyncs w w :=
  ⟨rfl, rfl, rfl, ⟨[], by simp⟩, .inl rfl, id, .refl w⟩

theorem Resyncs.trans (h : Resyncs w w') (h' : Resyncs w' w'') : Resyncs w w'' := by
  obtain ⟨new, hnew, hcontrol⟩ := h.outputs
  obtain ⟨new', hnew', hcontrol'⟩ := h'.outputs
  refine ⟨h'.applier.trans h.applier, h'.extensions.trans h.extensions, h'.failed.trans h.failed,
    ⟨new ++ new', ?_, ?_⟩, ?_, fun ht => h'.timely (h.timely ht), h.advances.trans h'.advances⟩
  · rw [hnew', hnew, List.append_assoc]
  · intro o ho
    rcases List.mem_append.mp ho with ho | ho
    · exact hcontrol o ho
    · exact hcontrol' o ho
  · rcases h'.loader with h₁ | h₁ | ⟨hbuf, h₁⟩
    · rw [h₁]
      exact h.loader
    · exact .inr (.inl h₁)
    · exact .inr (.inr ⟨h.applier ▸ hbuf, h₁⟩)

theorem resyncs_withIdleLoader (w : Loader Channel) : Resyncs w w.withIdleLoader :=
  ⟨rfl, rfl, rfl, ⟨[], by simp [Loader.withIdleLoader, Loader.withLoaderState]⟩, .inr (.inl rfl),
    Timely.withIdleLoader, advances_withIdleLoader w⟩

theorem resyncs_emit (w : Loader Channel) {o : Output Channel} (ho : o.isControl) :
    Resyncs w (w.emit o) :=
  ⟨rfl, rfl, rfl, ⟨[o], rfl, by simpa using ho⟩, .inl rfl,
    fun h => h.congr rfl rfl (List.Subset.refl _), .of_eq rfl rfl⟩

theorem resyncs_syncNext (w : Loader Channel) (env : Env Channel) (syncWith : SyncWith Channel) :
    Resyncs w (w.syncNext env syncWith) := by
  unfold Loader.syncNext
  cases syncWith with
  | none => exact resyncs_withIdleLoader w
  | some best =>
    cases hl : w.loaderState with
    | ExpectingSignatures => exact .refl w
    | ExpectingBlocks => exact .refl w
    | Idle =>
      simp only
      cases hk : w.maybeKnownSigs env with
      | none => exact .refl w
      | some sigs =>
        -- Signatures are asked for only when no extension is buffered.
        have hbuf : w.applierState.buffer = none := by
          unfold Loader.maybeKnownSigs at hk
          cases ha : w.applierState with
          | Idle => rfl
          | Applying buf ext =>
            rw [ha] at hk
            cases buf with
            | none => rfl
            | some b => cases hk
        exact ⟨rfl, rfl, rfl, ⟨[.getSignatures best.channel sigs.1], rfl, by simp [Output.isControl]⟩,
          .inr (.inr ⟨hbuf, _, _, _, rfl⟩),
          fun h => (h.wait best.channel .loadingExtension (by rfl)).congr rfl rfl
            (List.Subset.refl _),
          (advances_wait w best.channel .loadingExtension
            (.ExpectingSignatures best.channel sigs.1 w.nextTimeout) rfl).trans
            (.of_eq rfl rfl)⟩

end Resync

theorem resyncs_onNewSyncWithChannelClosed (w : Loader Channel) (env : Env Channel)
    (cc : ChannelClosedAndSyncWith Channel) :
    Resyncs w (w.onNewSyncWithChannelClosed env cc) := by
  obtain ⟨closed, syncWith⟩ := cc
  unfold Loader.onNewSyncWithChannelClosed
  cases syncWith with
  | none =>
    cases w.loaderState with
    | Idle => exact .refl w
    | ExpectingSignatures => exact resyncs_withIdleLoader w
    | ExpectingBlocks => exact resyncs_withIdleLoader w
  | some bestChannel =>
    cases closed with
    | none => exact resyncs_syncNext w env _
    | some closedChannel =>
      simp only
      split
      · exact .refl w
      · exact (resyncs_withIdleLoader w).trans (resyncs_syncNext _ env _)

/-- Signatures make the loader request blocks from the peer that it waited for, or go
back to idle or to asking for signatures. -/
theorem onNewSignatures_cases (w : Loader Channel) (env : Env Channel) (ch : Channel)
    (sigs : List BlockId) :
    Resyncs w (w.onNewSignatures env ch sigs) ∨
      ∃ known id ids, w.loaderState = .ExpectingSignatures ch known id ∧
        w.onNewSignatures env ch sigs =
          ((w.scheduleBlacklist ch .loadingFirstBlock).emit (.getBlocks ch ids)).withLoaderState
            (.ExpectingBlocks ch ids ids.toFinset [] w.nextTimeout) := by
  unfold Loader.onNewSignatures
  cases hl : w.loaderState with
  | Idle => exact .inl (.refl w)
  | ExpectingBlocks => exact .inl (.refl w)
  | ExpectingSignatures c known id =>
    simp only
    by_cases hc : c = ch
    · rw [if_pos hc]
      subst hc
      split
      · exact .inl (((resyncs_emit w rfl).trans (resyncs_withIdleLoader _)).trans
          (resyncs_syncNext _ env _))
      · split
        · exact .inl (resyncs_withIdleLoader w)
        · exact .inr ⟨known, id, _, rfl, rfl⟩
    · rw [if_neg hc]
      exact .inl (.refl w)

omit [DecidableEq Channel] in
/-- An extension is handed over, or kept until the one being applied is done. -/
theorem extensionLoadingFinished_cases (w : Loader Channel) (env : Env Channel)
    (extension : ExtensionBlocks) (ch : Channel) (hbuf : w.applierState.buffer = none) :
    (w.applierState = .Idle ∧
      Resyncs ((w.onNextExtension ch extension).withApplierState (.Applying none extension))
        (w.extensionLoadingFinished env extension ch)) ∨
    ∃ applying, w.applierState = .Applying none applying ∧
      w.extensionLoadingFinished env extension ch =
        w.withApplierState (.Applying (some ⟨ch, extension⟩) applying) := by
  unfold Loader.extensionLoadingFinished
  cases ha : w.applierState with
  | Idle => exact .inl ⟨rfl, resyncs_syncNext _ env _⟩
  | Applying buf applying =>
    rw [ha] at hbuf
    have hnone : buf = none := hbuf
    subst hnone
    exact .inr ⟨applying, rfl, rfl⟩

omit [DecidableEq Channel] in
theorem resyncs_timeout (w : Loader Channel) (t : Timeout Channel) :
    Resyncs w { w with
      pending := w.pending.filter (·.id ≠ t.id)
      outputs := w.outputs ++ [.timedOut t.channel, .blacklistAndClose t.channel t.reason] } :=
  ⟨rfl, rfl, rfl, ⟨_, rfl, by simp [Output.isControl]⟩, .inl rfl,
    fun h => h.congr rfl rfl fun _ ht => (List.mem_filter.mp ht).1, .of_eq rfl rfl⟩

/-! ## 5. The blocks of an extension -/

/-- The event made the loader request the blocks from the peer. -/
def RequestedAt (past : List (Event Channel)) (e : Event Channel) (ch : Channel)
    (ids : List BlockId) : Prop :=
  (run (past ++ [e])).outputs = (run past).outputs ++ [.getBlocks ch ids]

/-- The blocks came from the peer that the ids were requested from, after they were. -/
def Fetched (events : List (Event Channel)) (ch : Channel) (ids : List BlockId)
    (blocks : List Block) : Prop :=
  ∃ past e later, events = past ++ e :: later ∧ RequestedAt past e ch ids ∧
    ∀ b ∈ blocks, ∃ env, .block ch b env ∈ later

/-- The extension is what was requested from the peer, in the order of the request. -/
def FromPeer (events : List (Event Channel)) (ch : Channel) (ext : ExtensionBlocks) : Prop :=
  Fetched events ch (ext.blocks.map Block.uniqueId) ext.blocks

theorem Fetched.mono {events : List (Event Channel)} {ch : Channel} {ids : List BlockId}
    {blocks : List Block} (h : Fetched events ch ids blocks) (e : Event Channel) :
    Fetched (events ++ [e]) ch ids blocks := by
  obtain ⟨past, e₀, later, rfl, hreq, hblocks⟩ := h
  refine ⟨past, e₀, later ++ [e], by simp, hreq, fun b hb => ?_⟩
  obtain ⟨env, henv⟩ := hblocks b hb
  exact ⟨env, List.mem_append_left _ henv⟩

theorem Fetched.insert {events : List (Event Channel)} {ch : Channel} {ids : List BlockId}
    {blocks : List Block} (h : Fetched events ch ids blocks) (block : Block) (env : Env Channel) :
    Fetched (events ++ [.block ch block env]) ch ids (blocks.insert block) := by
  obtain ⟨past, e₀, later, rfl, hreq, hblocks⟩ := h
  refine ⟨past, e₀, later ++ [.block ch block env], by simp, hreq, fun b hb => ?_⟩
  rcases List.mem_insert_iff.mp hb with rfl | hb
  · exact ⟨env, by simp⟩
  · obtain ⟨env', henv⟩ := hblocks b hb
    exact ⟨env', List.mem_append_left _ henv⟩

/-- What the loader knows while it waits for blocks: every id requested is still expected
or has its block, and not both. -/
structure Loading (events : List (Event Channel)) (ch : Channel) (allBlocks : List BlockId)
    (expected : Finset BlockId) (received : List Block) : Prop where
  fetched : Fetched events ch allBlocks received
  cover : ∀ id, id ∈ allBlocks → id ∈ expected ∨ ∃ b ∈ received, b.uniqueId = id
  requested : ∀ id ∈ expected, id ∈ allBlocks
  apart : ∀ b ∈ received, b.uniqueId ∉ expected

omit [DecidableEq Channel] in
/-- All ids that are looked up are those of blocks at hand, so nothing is thrown. -/
theorem assemble_eq {requested : List BlockId} {blocks : List Block}
    (h : ∀ id ∈ requested, ∃ b ∈ blocks, b.uniqueId = id) :
    ∃ ext, Loader.assemble requested blocks = some ext ∧
      ext.blocks.map Block.uniqueId = requested ∧ ∀ b ∈ ext.blocks, b ∈ blocks := by
  unfold Loader.assemble
  induction requested with
  | nil => exact ⟨⟨[]⟩, rfl, rfl, by simp⟩
  | cons id requested ih =>
    obtain ⟨⟨rest⟩, hrest, hids, hmem⟩ := ih fun i hi => h i (List.mem_cons_of_mem _ hi)
    obtain ⟨b, hb, hid⟩ := h id (List.mem_cons_self)
    have hin : id ∈ (blocks.map fun b => (b.uniqueId, b)).map Prod.fst := by
      rw [List.map_map]
      exact List.mem_map.mpr ⟨b, hb, hid⟩
    obtain ⟨b', hpairs, hget⟩ := FiniteMap.exists_get?_ofList hin
    obtain ⟨c, hc, hpair⟩ := List.mem_map.mp hpairs
    obtain ⟨hcid, rfl⟩ := Prod.mk.inj hpair
    simp only [Option.map_eq_some_iff, ExtensionBlocks.mk.injEq, exists_eq_right] at hrest
    refine ⟨⟨c :: rest⟩, ?_, ?_, ?_⟩
    · simp [List.mapM_cons, hget, hrest]
    · rw [List.map_cons, hcid, hids]
    · intro x hx
      rcases List.mem_cons.mp hx with rfl | hx
      · exact hc
      · exact hmem x hx

/-! ## 6. The invariant of a run -/

def ApplierState.applying : ApplierState Channel → Option ExtensionBlocks
  | .Idle => none
  | .Applying _ applying => some applying

/-- The extension handed over last is the one being applied; a loader that keeps an
extension waits for nothing; and whatever is loaded, kept or handed over comes from one
peer. -/
structure Inv (events : List (Event Channel)) (w : Loader Channel) : Prop where
  failed : w.failed = false
  timely : Timely w
  applying : w.extensions.map Prod.snd = w.applierState.applying.toList
  idle : w.applierState.buffer ≠ none → w.loaderState = .Idle
  loading : ∀ ch allBlocks expected received id,
    w.loaderState = .ExpectingBlocks ch allBlocks expected received id →
      Loading events ch allBlocks expected received
  buffer : ∀ b, w.applierState.buffer = some b → FromPeer events b.ch b.ext
  handed : ∀ ch ext, .extension ch ext ∈ w.outputs → FromPeer events ch ext

section Invariant

variable {events : List (Event Channel)} {w w' : Loader Channel}

theorem Inv.mono (h : Inv events w) (e : Event Channel) : Inv (events ++ [e]) w where
  failed := h.failed
  timely := h.timely
  applying := h.applying
  idle := h.idle
  loading := fun ch allBlocks expected received id hl =>
    have hload := h.loading ch allBlocks expected received id hl
    { hload with fetched := hload.fetched.mono e }
  buffer := fun b hb => (h.buffer b hb).mono e
  handed := fun ch ext ho => (h.handed ch ext ho).mono e

theorem Inv.resyncs (h : Inv events w) (hr : Resyncs w w') : Inv events w' := by
  refine ⟨hr.failed.trans h.failed, hr.timely h.timely, ?_, fun hbuf => ?_,
    fun ch allBlocks expected received id hl => ?_, fun b hb => ?_, fun ch ext ho => ?_⟩
  · rw [hr.extensions, hr.applier]
    exact h.applying
  · rw [hr.applier] at hbuf
    rcases hr.loader with h₁ | h₁ | ⟨hnone, -⟩
    · rw [h₁]
      exact h.idle hbuf
    · exact h₁
    · exact absurd hnone hbuf
  · rcases hr.loader with h₁ | h₁ | ⟨-, c, known, i, h₁⟩
    · exact h.loading ch allBlocks expected received id (h₁ ▸ hl)
    · rw [h₁] at hl
      cases hl
    · rw [h₁] at hl
      cases hl
  · rw [hr.applier] at hb
    exact h.buffer b hb
  · obtain ⟨new, hnew, hcontrol⟩ := hr.outputs
    rw [hnew, List.mem_append] at ho
    rcases ho with ho | ho
    · exact h.handed ch ext ho
    · exact absurd (hcontrol _ ho) (by simp [Output.isControl])

/-- An idle applier is given an extension. -/
theorem Inv.handOver (h : Inv events w) (hidle : w.applierState = .Idle) {ch : Channel}
    {ext : ExtensionBlocks} (hext : FromPeer events ch ext) :
    Inv events ((w.onNextExtension ch ext).withApplierState (.Applying none ext)) := by
  have happly := h.applying
  rw [hidle] at happly
  refine ⟨h.failed, h.timely.congr rfl rfl (List.Subset.refl _), ?_, fun hbuf => absurd rfl hbuf,
    h.loading, fun b hb => (by cases hb), fun c x hx => ?_⟩
  · show (w.extensions ++ [(ch, ext)]).map Prod.snd = [ext]
    rw [List.map_append, happly]
    rfl
  · rcases List.mem_append.mp hx with hx | hx
    · exact h.handed c x hx
    · rw [List.mem_singleton] at hx
      obtain ⟨rfl, rfl⟩ := Output.extension.inj hx
      exact hext

/-- An idle loader keeps an extension for a busy applier. -/
theorem Inv.keep (h : Inv events w) (hloader : w.loaderState = .Idle) {applying : ExtensionBlocks}
    (happlier : w.applierState = .Applying none applying) {ch : Channel} {ext : ExtensionBlocks}
    (hext : FromPeer events ch ext) :
    Inv events (w.withApplierState (.Applying (some ⟨ch, ext⟩) applying)) := by
  have happly := h.applying
  rw [happlier] at happly
  refine ⟨h.failed, h.timely.congr rfl rfl (List.Subset.refl _), happly, fun _ => hloader,
    h.loading, fun b hb => ?_, h.handed⟩
  obtain rfl : Buffer.mk ch ext = b := Option.some.inj hb
  exact hext

/-- The applier is done. -/
theorem Inv.applied (h : Inv events w) :
    Inv events ({ w with extensions := [] }.withApplierState .Idle) :=
  ⟨h.failed, h.timely.congr rfl rfl (List.Subset.refl _), rfl, fun hbuf => absurd rfl hbuf,
    h.loading, fun b hb => (by cases hb), h.handed⟩

theorem Inv.onExtensionApplied (h : Inv events w) {c : Channel} {x : ExtensionBlocks}
    {rest : List (Channel × ExtensionBlocks)} (hext : w.extensions = (c, x) :: rest)
    (env : Env Channel) (result : ApplyExtensionResult) :
    Inv events ({ w with extensions := rest }.onExtensionApplied env result) := by
  have happly := h.applying
  -- Something was handed over, so the applier is busy with it, and with nothing else.
  cases ha : w.applierState with
  | Idle =>
    rw [ha, hext] at happly
    cases happly
  | Applying buf applying =>
    have hrest : rest = [] := by
      rw [ha, hext] at happly
      have hlen := congrArg List.length happly
      simpa [ApplierState.applying] using hlen
    subst hrest
    unfold Loader.onExtensionApplied
    show Inv events (match w.applierState with
      | .Idle => _
      | .Applying none _ => _
      | .Applying (some ⟨nextChannel, nextExtension⟩) _ => _)
    rw [ha]
    cases buf with
    | none => exact h.applied
    | some b =>
      cases result with
      | error => exact h.applied.resyncs (resyncs_syncNext _ env _)
      | ok =>
        have hb := h.buffer b (by rw [ha]; rfl)
        exact (h.applied.handOver rfl hb).resyncs (resyncs_syncNext _ env _)

/-! ### Blocks -/

/-- The block is one that the loader waits for. -/
def Takes (w : Loader Channel) (ch : Channel) (block : Block) : Prop :=
  ∃ allBlocks expected received id,
    w.loaderState = .ExpectingBlocks ch allBlocks expected received id ∧ block.uniqueId ∈ expected

theorem onBlock_of_not_takes {ch : Channel} {block : Block} (h : ¬ Takes w ch block)
    (env : Env Channel) : w.onBlock env ch block = w.emit (.simpleBlock ch block) := by
  unfold Loader.onBlock
  cases hl : w.loaderState with
  | Idle => rfl
  | ExpectingSignatures => rfl
  | ExpectingBlocks c requested expected received id =>
    simp only
    by_cases hc : c = ch ∧ block.uniqueId ∈ expected
    · obtain ⟨rfl, hin⟩ := hc
      exact absurd ⟨requested, expected, received, id, hl, hin⟩ h
    · rw [if_neg hc]

/-- The last block expected completes the extension, which it is a part of. -/
theorem Loading.assemble {ch : Channel} {allBlocks : List BlockId} {expected : Finset BlockId}
    {received : List Block} (h : Loading events ch allBlocks expected received) {block : Block}
    (hlast : expected = {block.uniqueId}) :
    ∃ ext, Loader.assemble allBlocks (received.insert block) = some ext ∧
      ext.blocks.map Block.uniqueId = allBlocks ∧
      (∀ b ∈ ext.blocks, b ∈ received.insert block) ∧ block ∈ ext.blocks := by
  have hin : block.uniqueId ∈ expected := by simp [hlast]
  have hall : ∀ id ∈ allBlocks, ∃ b ∈ received.insert block, b.uniqueId = id := by
    intro id hid
    rcases h.cover id hid with hexp | ⟨b, hb, hbid⟩
    · rw [hlast, Finset.mem_singleton] at hexp
      exact ⟨block, List.mem_insert_self, hexp.symm⟩
    · exact ⟨b, List.mem_insert_of_mem hb, hbid⟩
  obtain ⟨ext, hext, hids, hsub⟩ := assemble_eq hall
  refine ⟨ext, hext, hids, hsub, ?_⟩
  have hmem : block.uniqueId ∈ ext.blocks.map Block.uniqueId := by
    rw [hids]
    exact h.requested _ hin
  obtain ⟨b, hb, hbid⟩ := List.mem_map.mp hmem
  rcases List.mem_insert_iff.mp (hsub b hb) with rfl | hrec
  · exact hb
  · exact absurd (hbid ▸ hin) (h.apart b hrec)

/-- A block that is waited for is kept with the others, or completes the extension. -/
theorem onBlock_of_takes {ch : Channel} {allBlocks : List BlockId} {expected : Finset BlockId}
    {received : List Block} {id : TimeoutId} {block : Block}
    (hl : w.loaderState = .ExpectingBlocks ch allBlocks expected received id)
    (hin : block.uniqueId ∈ expected) (h : Loading events ch allBlocks expected received)
    (env : Env Channel) :
    (∃ reason, w.onBlock env ch block = (w.scheduleBlacklist ch reason).withLoaderState
      (.ExpectingBlocks ch allBlocks (expected.erase block.uniqueId) (received.insert block)
        w.nextTimeout)) ∨
    ∃ ext, ext.blocks.map Block.uniqueId = allBlocks ∧
      (∀ b ∈ ext.blocks, b ∈ received.insert block) ∧ block ∈ ext.blocks ∧
      w.onBlock env ch block = w.withIdleLoader.extensionLoadingFinished env ext ch := by
  unfold Loader.onBlock
  rw [hl]
  simp only
  rw [if_pos ⟨trivial, hin⟩]
  by_cases hlast : expected = {block.uniqueId}
  · rw [if_pos hlast]
    obtain ⟨ext, hext, hids, hsub, hblock⟩ := h.assemble hlast
    rw [hext]
    exact .inr ⟨ext, hids, hsub, hblock, rfl⟩
  · rw [if_neg hlast]
    exact .inl ⟨_, rfl⟩

/-- Another block is there, and expected no longer. -/
theorem Loading.receive {ch : Channel} {allBlocks : List BlockId} {expected : Finset BlockId}
    {received : List Block} (h : Loading events ch allBlocks expected received) (block : Block)
    (env : Env Channel) :
    Loading (events ++ [.block ch block env]) ch allBlocks (expected.erase block.uniqueId)
      (received.insert block) where
  fetched := h.fetched.insert block env
  cover := by
    intro id hid
    by_cases heq : id = block.uniqueId
    · exact .inr ⟨block, List.mem_insert_self, heq.symm⟩
    rcases h.cover id hid with hexp | ⟨b, hb, hbid⟩
    · exact .inl (Finset.mem_erase.mpr ⟨heq, hexp⟩)
    · exact .inr ⟨b, List.mem_insert_of_mem hb, hbid⟩
  requested := fun id hid => h.requested id (Finset.mem_erase.mp hid).2
  apart := by
    intro b hb hid
    rw [Finset.mem_erase] at hid
    rcases List.mem_insert_iff.mp hb with rfl | hb
    · exact hid.1 rfl
    · exact h.apart b hb hid.2

theorem Inv.onBlock (h : Inv events w) (env : Env Channel) (ch : Channel) (block : Block) :
    Inv (events ++ [.block ch block env]) (w.onBlock env ch block) := by
  have hm := h.mono (.block ch block env)
  by_cases ht : Takes w ch block
  · obtain ⟨allBlocks, expected, received, id, hl, hin⟩ := ht
    have hload := h.loading ch allBlocks expected received id hl
    have hbuf : w.applierState.buffer = none := by
      by_contra hb
      rw [h.idle hb] at hl
      cases hl
    rcases onBlock_of_takes hl hin hload env with ⟨reason, hs⟩ | ⟨ext, hids, hsub, -, hs⟩
    · -- Still loading: a new timeout, and one block more.
      rw [hs]
      refine ⟨h.failed, h.timely.wait ch reason rfl, h.applying, fun hb => absurd hbuf hb,
        fun c a x r i hl' => ?_, hm.buffer, hm.handed⟩
      obtain ⟨rfl, rfl, rfl, rfl, -⟩ := LoaderState.ExpectingBlocks.inj hl'
      exact hload.receive block env
    · rw [hs]
      obtain ⟨past, e₀, later, hev, hreq, hblocks⟩ := (hload.receive block env).fetched
      have hext : FromPeer (events ++ [.block ch block env]) ch ext := by
        unfold FromPeer
        rw [hids]
        exact ⟨past, e₀, later, hev, hreq, fun b hb => hblocks b (hsub b hb)⟩
      have hidle := hm.resyncs (resyncs_withIdleLoader w)
      rcases extensionLoadingFinished_cases w.withIdleLoader env ext ch hbuf with
        ⟨ha, hr⟩ | ⟨applying, ha, hk⟩
      · exact (hidle.handOver ha hext).resyncs hr
      · rw [hk]
        exact hidle.keep rfl ha hext
  · rw [onBlock_of_not_takes ht]
    refine ⟨hm.failed, hm.timely.congr rfl rfl (List.Subset.refl _), hm.applying, hm.idle,
      hm.loading, hm.buffer, fun c x hx => ?_⟩
    rcases List.mem_append.mp hx with hx | hx
    · exact hm.handed c x hx
    · simp at hx

end Invariant

theorem step_of_not_failed {w : Loader Channel} (h : w.failed = false) (e : Event Channel) :
    step w e = match e with
      | .signatures ch sigs env => w.onNewSignatures env ch sigs
      | .block ch block env => w.onBlock env ch block
      | .syncWithChannelClosed cc env => w.onNewSyncWithChannelClosed env cc
      | .extensionApplied result env =>
        match w.extensions with
        | [] => w
        | _ :: rest => { w with extensions := rest }.onExtensionApplied env result
      | .timeout id =>
        match w.pending.find? (·.id = id) with
        | none => w
        | some t =>
          { w with
            pending := w.pending.filter (·.id ≠ id)
            outputs := w.outputs ++ [.timedOut t.channel, .blacklistAndClose t.channel t.reason] } := by
  unfold step
  rw [h]
  rfl

theorem resyncs_step_timeout (w : Loader Channel) (id : TimeoutId) :
    Resyncs w (step w (.timeout id)) := by
  unfold step
  split
  · exact .refl w
  · simp only
    cases hf : w.pending.find? (·.id = id) with
    | none => exact .refl w
    | some t =>
      have hid : t.id = id := by simpa using List.find?_some hf
      subst hid
      exact resyncs_timeout w t

/-- **The step lemma.** -/
theorem Inv.next {past : List (Event Channel)} (h : Inv past (run past)) (e : Event Channel) :
    Inv (past ++ [e]) (step (run past) e) := by
  have hm := h.mono e
  cases e with
  | signatures ch sigs env =>
    have hs := step_of_not_failed h.failed (.signatures ch sigs env)
    simp only at hs
    rw [hs]
    rcases onNewSignatures_cases (run past) env ch sigs with hr | ⟨known, id, ids, hl, hreq⟩
    · exact hm.resyncs hr
    · rw [hreq]
      have hat : RequestedAt past (.signatures ch sigs env) ch ids := by
        unfold RequestedAt run
        rw [EventRun.after_concat]
        show (step (run past) _).outputs = _
        rw [hs, hreq]
        rfl
      refine ⟨h.failed, (h.timely.wait ch .loadingFirstBlock (by rfl)).congr rfl rfl
        (List.Subset.refl _), h.applying, fun hb => ?_, fun c a x r i hl' => ?_, hm.buffer,
        fun c x hx => ?_⟩
      · rw [h.idle hb] at hl
        cases hl
      · obtain ⟨rfl, rfl, rfl, rfl, -⟩ := LoaderState.ExpectingBlocks.inj hl'
        exact ⟨⟨past, _, [], rfl, hat, by simp⟩, fun id hid => .inl (List.mem_toFinset.mpr hid),
          fun id hid => List.mem_toFinset.mp hid, by simp⟩
      · rcases List.mem_append.mp hx with hx | hx
        · exact hm.handed c x hx
        · simp at hx
  | block ch block env =>
    rw [step_of_not_failed h.failed]
    exact h.onBlock env ch block
  | syncWithChannelClosed cc env =>
    rw [step_of_not_failed h.failed]
    exact hm.resyncs (resyncs_onNewSyncWithChannelClosed _ env cc)
  | extensionApplied result env =>
    rw [step_of_not_failed h.failed]
    simp only
    cases hext : (run past).extensions with
    | nil => exact hm
    | cons c rest => exact hm.onExtensionApplied hext env result
  | timeout id => exact hm.resyncs (resyncs_step_timeout _ id)

theorem inv_run (events : List (Event Channel)) : Inv events (run events) := by
  refine EventRun.invariant step {} (I := Inv) ?_ (fun past e h => h.next e) events
  exact ⟨rfl, ⟨nofun, nofun⟩, rfl, fun _ => rfl, nofun, nofun, nofun⟩

/-! ## 7. Cancelled timeouts -/

omit [DecidableEq Channel] in
theorem advances_extensionLoadingFinished (w : Loader Channel) (env : Env Channel)
    (extension : ExtensionBlocks) (ch : Channel) :
    Advances w (w.extensionLoadingFinished env extension ch) := by
  unfold Loader.extensionLoadingFinished
  cases w.applierState with
  | Idle =>
    simp only
    exact (resyncs_syncNext _ env _).advances.before rfl rfl
  | Applying buf applying => cases buf <;> exact .of_eq rfl rfl

theorem advances_onBlock (w : Loader Channel) (env : Env Channel) (ch : Channel) (block : Block) :
    Advances w (w.onBlock env ch block) := by
  unfold Loader.onBlock
  cases w.loaderState with
  | Idle => exact .of_eq rfl rfl
  | ExpectingSignatures => exact .of_eq rfl rfl
  | ExpectingBlocks c requested expected received id =>
    simp only
    split
    · split
      · split
        · exact .of_eq rfl rfl
        · exact (advances_withIdleLoader w).trans (advances_extensionLoadingFinished _ env _ ch)
      · exact advances_wait w ch _ _ rfl
    · exact .of_eq rfl rfl

omit [DecidableEq Channel] in
theorem advances_onExtensionApplied (w : Loader Channel) (env : Env Channel)
    (result : ApplyExtensionResult) : Advances w (w.onExtensionApplied env result) := by
  unfold Loader.onExtensionApplied
  cases w.applierState with
  | Idle => exact .refl w
  | Applying buf applying =>
    cases buf with
    | none => exact .of_eq rfl rfl
    | some b =>
      cases result <;> simp only <;>
        exact (resyncs_syncNext _ env _).advances.before rfl rfl

theorem advances_step (w : Loader Channel) (e : Event Channel) : Advances w (step w e) := by
  cases hf : w.failed with
  | true =>
    unfold step
    rw [hf]
    exact .refl w
  | false =>
    cases e with
    | signatures ch sigs env =>
      rw [step_of_not_failed hf]
      rcases onNewSignatures_cases w env ch sigs with hr | ⟨known, id, ids, -, hreq⟩
      · exact hr.advances
      · simp only
        rw [hreq]
        exact (advances_wait w ch .loadingFirstBlock
          (.ExpectingBlocks ch ids ids.toFinset [] w.nextTimeout) rfl).trans
          (.of_eq rfl rfl)
    | block ch block env =>
      rw [step_of_not_failed hf]
      exact advances_onBlock w env ch block
    | syncWithChannelClosed cc env =>
      rw [step_of_not_failed hf]
      exact (resyncs_onNewSyncWithChannelClosed w env cc).advances
    | extensionApplied result env =>
      rw [step_of_not_failed hf]
      simp only
      cases w.extensions with
      | nil => exact .refl w
      | cons c rest => exact (advances_onExtensionApplied _ env result).before rfl rfl
    | timeout id => exact (resyncs_step_timeout w id).advances

/-- A timeout that was scheduled and is not waited for any more never will be. -/
def Left (id : TimeoutId) (w : Loader Channel) : Prop :=
  id < w.nextTimeout ∧ w.loaderState.timeout ≠ some id

theorem Left.step {id : TimeoutId} {w : Loader Channel} (h : Left id w) (e : Event Channel) :
    Left id (step w e) := by
  have ha := advances_step w e
  refine ⟨h.1.trans_le ha.next, ?_⟩
  rcases ha.timeout with h₁ | h₁ | ⟨new, h₁, hle⟩
  · rw [h₁]
    exact h.2
  · simp [h₁]
  · rw [h₁, Ne, Option.some.injEq]
    exact (h.1.trans_le hle).ne'

/-! ## 8. The loader is safe -/

/-- At most one of the extensions handed over has not been applied yet. -/
def AppliesOne (events : List (Event Channel)) : Prop := (run events).extensions.length ≤ 1

/-- Every extension handed over came from one peer, as it was requested. -/
def HandsOverRequested (events : List (Event Channel)) : Prop :=
  ∀ ch ext, .extension ch ext ∈ (run events).outputs → FromPeer events ch ext

/-- The blocks forwarded so far. -/
def forwarded (w : Loader Channel) : List (Channel × Block) :=
  w.outputs.filterMap fun
    | .simpleBlock ch block => some (ch, block)
    | _ => none

/-- The block is among those received for the extension being loaded, or in the extension
that it completed, which the applier was given or has still to be given. -/
def PartOfExtension (w : Loader Channel) (ch : Channel) (block : Block) : Prop :=
  (∃ allBlocks expected received id,
    w.loaderState = .ExpectingBlocks ch allBlocks expected received id ∧ block ∈ received) ∨
  ∃ ext, block ∈ ext.blocks ∧
    (w.extensions = [(ch, ext)] ∨ w.applierState.buffer = some ⟨ch, ext⟩)

/-- A block that comes after the events becomes a part of the extension being loaded and
is not forwarded, or it is forwarded and nothing else happens. The same block coming twice
is two blocks received. -/
def SortsBlocks (events : List (Event Channel)) : Prop :=
  ∀ ch block env,
    (Takes (run events) ch block ∧
      PartOfExtension (run (events ++ [.block ch block env])) ch block ∧
      forwarded (run (events ++ [.block ch block env])) = forwarded (run events)) ∨
    (¬ Takes (run events) ch block ∧
      run (events ++ [.block ch block env]) = (run events).emit (.simpleBlock ch block))

/-- A state that the loader waited in after the events, and left with the next event, has
its timeout cancelled for good. -/
def CancelsTimeouts (events : List (Event Channel)) : Prop :=
  ∀ e later id, (run events).loaderState.timeout = some id →
    (run (events ++ [e])).loaderState.timeout ≠ some id →
    ∀ t ∈ (run (events ++ e :: later)).pending, t.id ≠ id

theorem appliesOne (events : List (Event Channel)) : AppliesOne events := by
  have happly := (inv_run events).applying
  have hlen := congrArg List.length happly
  rw [List.length_map] at hlen
  unfold AppliesOne
  rw [hlen]
  cases (run events).applierState.applying <;> simp

omit [DecidableEq Channel] in
theorem forwarded_of_control {w w' : Loader Channel}
    (h : ∃ new, w'.outputs = w.outputs ++ new ∧ ∀ o ∈ new, o.isControl) :
    forwarded w' = forwarded w := by
  obtain ⟨new, hnew, hcontrol⟩ := h
  unfold forwarded
  rw [hnew, List.filterMap_append, List.append_right_eq_self, List.filterMap_eq_nil_iff]
  intro o ho
  have hc := hcontrol o ho
  cases o <;> first | rfl | cases hc

theorem sortsBlocks (events : List (Event Channel)) : SortsBlocks events := by
  intro ch block env
  have h := inv_run events
  have hrun : run (events ++ [.block ch block env]) = (run events).onBlock env ch block := by
    unfold run
    rw [EventRun.after_concat]
    exact step_of_not_failed h.failed _
  rw [hrun]
  by_cases ht : Takes (run events) ch block
  · refine .inl ⟨ht, ?_⟩
    obtain ⟨allBlocks, expected, received, id, hl, hin⟩ := ht
    have hbuf : (run events).applierState.buffer = none := by
      by_contra hb
      rw [h.idle hb] at hl
      cases hl
    rcases onBlock_of_takes hl hin (h.loading ch _ _ _ _ hl) env with
      ⟨reason, hs⟩ | ⟨ext, -, -, hblock, hs⟩
    · rw [hs]
      exact ⟨.inl ⟨_, _, _, _, rfl, List.mem_insert_self⟩, rfl⟩
    · rw [hs]
      rcases extensionLoadingFinished_cases (run events).withIdleLoader env ext ch hbuf with
        ⟨ha, hr⟩ | ⟨applying, -, hk⟩
      · have hnil : (run events).extensions = [] := by
          have happly := h.applying
          rw [show (run events).applierState = .Idle from ha] at happly
          exact List.map_eq_nil_iff.mp happly
        refine ⟨.inr ⟨ext, hblock, .inl ?_⟩, ?_⟩
        · rw [hr.extensions]
          show (run events).extensions ++ [(ch, ext)] = _
          rw [hnil]
          rfl
        · rw [forwarded_of_control hr.outputs]
          show List.filterMap _ ((run events).outputs ++ [.extension ch ext]) = _
          rw [List.filterMap_append]
          exact List.append_nil _
      · rw [hk]
        exact ⟨.inr ⟨ext, hblock, .inr rfl⟩, rfl⟩
  · exact .inr ⟨ht, onBlock_of_not_takes ht env⟩

theorem cancelsTimeouts (events : List (Event Channel)) : CancelsTimeouts events := by
  intro e later id hid hleft t ht heq
  have hused := (inv_run events).timely.used id hid
  have hnow : Left id (run (events ++ [e])) := by
    refine ⟨hused.trans_le ?_, hleft⟩
    unfold run
    rw [EventRun.after_concat]
    exact (advances_step _ e).next
  have hlater : Left id (run (events ++ e :: later)) := by
    have happend : events ++ e :: later = (events ++ [e]) ++ later := by simp
    unfold run
    rw [happend, EventRun.after_append]
    exact EventRun.stable step (P := Left id) (fun w e h => h.step e) hnow later
  exact hlater.2 (heq ▸ (inv_run _).timely.pending t ht)

/-- **The extension loader is safe**, whatever comes, from whom, and in whatever order. -/
theorem loader_safe (events : List (Event Channel)) :
    AppliesOne events ∧ HandsOverRequested events ∧ SortsBlocks events ∧ CancelsTimeouts events :=
  ⟨appliesOne events, (inv_run events).handed, sortsBlocks events, cancelsTimeouts events⟩

end RxExtensionLoader

end WavesNode
