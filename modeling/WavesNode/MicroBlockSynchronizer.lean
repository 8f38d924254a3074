/-
The micro-block synchronizer: which announced micro-blocks are requested.

An announcement names a micro-block by the id of the block that ends with it and by
the id of the block before it. The synchronizer keeps who announced what, the first
announcement on top of each block, what it awaits and what it has received. It asks
for the micro-block on top of the last block, either when the announcement comes or
when the last block changes, from owners picked at random.

The events of the environment come in any order and from any channel, and the tasks
of the synchronizer run at any moment after they were started.
-/
import WavesNode.Block
import WavesNode.EventRuns

set_option autoImplicit false

namespace WavesNode

structure MicroBlockInv where
  sender : PublicKey
  totalBlockSig : ByteStr
  prevBlockSig : ByteStr
  signature : ByteStr
  deriving DecidableEq

/-- `MicroBlockInv.signatureValid`; an announcement has no signed descendants. -/
def MicroBlockInv.signatureValid [Crypto] (inv : MicroBlockInv) : Bool :=
  Crypto.verify inv.signature
    (inv.sender.toAddress.bytes ++ inv.totalBlockSig ++ inv.prevBlockSig) inv.sender

namespace MicroBlockSynchronizer

abbrev MicroBlockSignature := ByteStr

def MicroBlockDownloadAttempts : ℕ := 2

/-! ## 1. The synchronizer -/

/-- What is passed downstream. The owners go with it too, read when they are needed. -/
structure MicroblockData where
  invOpt : Option MicroBlockInv
  microBlock : MicroBlock
  deriving DecidableEq

/-- `task(attemptsAllowed, exclude)` of `requestMicroBlock(mbInv)`, scheduled. -/
structure RequestTask (Channel : Type) where
  mbInv : MicroBlockInv
  attemptsAllowed : ℕ
  exclude : List Channel
  deriving DecidableEq

variable {Channel : Type} [DecidableEq Channel]

/-- The four caches, the last block id observed, the ids that `tryDownloadNext` has
still to be called with, the tasks scheduled, the channels closed and blacklisted, and
what was sent: requests to peers and micro-blocks downstream. -/
structure State (Channel : Type) where
  microBlockOwners : FiniteMap MicroBlockSignature (List Channel) := ∅
  nextInvs : FiniteMap MicroBlockSignature MicroBlockInv := ∅
  awaiting : FiniteMap MicroBlockSignature MicroBlockInv := ∅
  successfullyReceived : FiniteMap MicroBlockSignature Unit := ∅
  lastBlockId : Option BlockId := none
  toDownload : List BlockId := []
  tasks : List (RequestTask Channel) := []
  closed : List Channel := []
  blacklisted : List Channel := []
  requests : List (Channel × MicroBlockSignature) := []
  downstream : List (Channel × MicroblockData) := []

/-- `random`: any element of a set that is not empty. -/
def random {T : Type} (s : List T) (pick : ℕ) : Option T := (s.drop (pick % s.length)).head?

theorem random_eq_none {T : Type} {s : List T} {pick : ℕ} (h : random s pick = none) : s = [] := by
  unfold random at h
  rw [List.head?_eq_none_iff, List.drop_eq_nil_iff] at h
  by_contra hs
  have hpos : 0 < s.length := List.length_pos_of_ne_nil hs
  have hlt := Nat.mod_lt pick hpos
  omega

theorem mem_of_random {T : Type} {s : List T} {pick : ℕ} {x : T} (h : random s pick = some x) :
    x ∈ s :=
  List.mem_of_mem_drop (List.mem_of_head? h)

namespace State

variable (s : State Channel)

def owners (totalResBlockSig : BlockId) : List Channel :=
  s.microBlockOwners.getOrElse totalResBlockSig []

def alreadyRequested (totalSig : MicroBlockSignature) : Bool := s.awaiting.contains totalSig

def alreadyProcessed (totalSig : MicroBlockSignature) : Bool :=
  s.successfullyReceived.contains totalSig

def isOpen (ch : Channel) : Bool := ch ∉ s.closed

def requestMicroBlock (mbInv : MicroBlockInv) : State Channel :=
  { s with tasks := s.tasks ++ [⟨mbInv, MicroBlockDownloadAttempts, []⟩] }

/-- One step of the `n`-th task, which asks one owner, passes over a closed one, or
ends. -/
def task (n : ℕ) (t : RequestTask Channel) (pick : ℕ) : State Channel :=
  let totalBlockSig := t.mbInv.totalBlockSig
  if t.attemptsAllowed = 0 ∨ s.alreadyProcessed totalBlockSig then
    { s with tasks := s.tasks.eraseIdx n }
  else
    match random ((s.owners totalBlockSig).filter (· ∉ t.exclude)) pick with
    | none => { s with tasks := s.tasks.eraseIdx n }
    | some channel =>
      if s.isOpen channel then
        { s with
          requests := s.requests ++ [(channel, totalBlockSig)]
          awaiting := s.awaiting.insert totalBlockSig t.mbInv
          tasks := s.tasks.set n
            { t with attemptsAllowed := t.attemptsAllowed - 1, exclude := channel :: t.exclude } }
      else { s with tasks := s.tasks.set n { t with exclude := channel :: t.exclude } }

def tryDownloadNext (prevBlockId : BlockId) : State Channel :=
  match s.nextInvs.get? prevBlockId with
  | none => s
  | some mbInv => s.requestMicroBlock mbInv

/-- The handler of `microblockInvs`. -/
def onInv [Crypto] (ch : Channel) (mbInv : MicroBlockInv) : State Channel :=
  let totalSig := mbInv.totalBlockSig
  let prevSig := mbInv.prevBlockSig
  if mbInv.signatureValid then
    let s₁ := { s with
      microBlockOwners := s.microBlockOwners.insert totalSig ((s.owners totalSig).insert ch)
      nextInvs := if s.nextInvs.contains prevSig then s.nextInvs
        else s.nextInvs.insert prevSig mbInv }
    if s₁.lastBlockId = some prevSig ∧ ¬ s₁.alreadyRequested totalSig then
      s₁.tryDownloadNext prevSig
    else s₁
  else { s with blacklisted := ch :: s.blacklisted }

/-- The handler of `microblockResponses`. -/
def onResponse (ch : Channel) (mb : MicroBlock) : State Channel :=
  let totalSig := mb.totalResBlockSig
  let s₁ := { s with successfullyReceived := s.successfullyReceived.insert totalSig () }
  match s₁.awaiting.get? totalSig with
  | none => s₁
  | some mi =>
    { s₁ with
      awaiting := s₁.awaiting.erase totalSig
      downstream := s₁.downstream ++ [(ch, ⟨some mi, mb⟩)] }

end State

/-- What may happen next. -/
inductive Event (Channel : Type) where
  /-- The last block id changes: `lastObserved` sees it, and `tryDownloadNext` is due. -/
  | lastBlockId (id : BlockId)
  /-- `tryDownloadNext` is called with the earliest id that it is due for. -/
  | download
  | microblockInv (ch : Channel) (mbInv : MicroBlockInv)
  /-- A scheduled task runs, and picks an owner. -/
  | task (n pick : ℕ)
  | microblockResponse (ch : Channel) (mb : MicroBlock)
  /-- A channel closes, for good. -/
  | closed (ch : Channel)
  deriving DecidableEq

def step [Crypto] (s : State Channel) : Event Channel → State Channel
  | .lastBlockId id => { s with lastBlockId := some id, toDownload := s.toDownload ++ [id] }
  | .download =>
    match s.toDownload with
    | [] => s
    | id :: rest => { s with toDownload := rest }.tryDownloadNext id
  | .microblockInv ch mbInv => s.onInv ch mbInv
  | .task n pick =>
    match s.tasks[n]? with
    | none => s
    | some t => s.task n t pick
  | .microblockResponse ch mb => s.onResponse ch mb
  | .closed ch => { s with closed := ch :: s.closed }

/-- The state after the events, from the start of the node. -/
def run [Crypto] (events : List (Event Channel)) : State Channel := EventRun.after step {} events

/-! ## 2. What the handlers do -/

/-- What a state keeps when only its tasks and the requests they wrote change. -/
structure SameCaches (s s' : State Channel) : Prop where
  owners : s'.microBlockOwners = s.microBlockOwners
  nextInvs : s'.nextInvs = s.nextInvs
  received : s'.successfullyReceived = s.successfullyReceived
  lastBlockId : s'.lastBlockId = s.lastBlockId
  closed : s'.closed = s.closed

omit [DecidableEq Channel] in
theorem State.tryDownloadNext_eq (s : State Channel) (id : BlockId) :
    s.tryDownloadNext id = { s with
      tasks := s.tasks ++ (s.nextInvs.get? id).toList.map fun mbInv =>
        ⟨mbInv, MicroBlockDownloadAttempts, []⟩ } := by
  unfold State.tryDownloadNext
  cases s.nextInvs.get? id with
  | none => simp
  | some mbInv => rfl

omit [DecidableEq Channel] in
theorem SameCaches.trans {s s' s'' : State Channel} (h : SameCaches s s') (h' : SameCaches s' s'') :
    SameCaches s s'' :=
  ⟨h'.owners.trans h.owners, h'.nextInvs.trans h.nextInvs, h'.received.trans h.received,
    h'.lastBlockId.trans h.lastBlockId, h'.closed.trans h.closed⟩

/-- **What a task does**: it ends, for want of attempts, of reasons to go on or of owners
to ask; or it asks an owner whose channel is open; or it passes over one whose channel
is closed. -/
theorem State.task_cases (s : State Channel) (n : ℕ) (t : RequestTask Channel) (pick : ℕ) :
    ((t.attemptsAllowed = 0 ∨ s.alreadyProcessed t.mbInv.totalBlockSig ∨
        ∀ ch ∈ s.owners t.mbInv.totalBlockSig, ch ∈ t.exclude) ∧
      s.task n t pick = { s with tasks := s.tasks.eraseIdx n }) ∨
    (0 < t.attemptsAllowed ∧ ¬ s.alreadyProcessed t.mbInv.totalBlockSig ∧
      ∃ ch ∈ s.owners t.mbInv.totalBlockSig, ch ∉ t.exclude ∧
        ((s.isOpen ch ∧ s.task n t pick = { s with
            requests := s.requests ++ [(ch, t.mbInv.totalBlockSig)]
            awaiting := s.awaiting.insert t.mbInv.totalBlockSig t.mbInv
            tasks := s.tasks.set n
              { t with attemptsAllowed := t.attemptsAllowed - 1, exclude := ch :: t.exclude } }) ∨
          (¬ s.isOpen ch ∧ s.task n t pick = { s with
            tasks := s.tasks.set n { t with exclude := ch :: t.exclude } }))) := by
  unfold State.task
  simp only
  by_cases hend : t.attemptsAllowed = 0 ∨ s.alreadyProcessed t.mbInv.totalBlockSig
  · rw [if_pos hend]
    exact .inl ⟨by tauto, rfl⟩
  rw [if_neg hend]
  rw [not_or] at hend
  cases hr : random ((s.owners t.mbInv.totalBlockSig).filter (· ∉ t.exclude)) pick with
  | none =>
    refine .inl ⟨.inr (.inr fun ch hch => ?_), rfl⟩
    have hnil := random_eq_none hr
    rw [List.filter_eq_nil_iff] at hnil
    simpa using hnil ch hch
  | some ch =>
    have hmem := mem_of_random hr
    rw [List.mem_filter, decide_eq_true_iff] at hmem
    refine .inr ⟨Nat.pos_of_ne_zero hend.1, hend.2, ch, hmem.1, hmem.2, ?_⟩
    simp only
    by_cases hopen : s.isOpen ch
    · rw [if_pos hopen]
      exact .inl ⟨hopen, rfl⟩
    · rw [if_neg hopen]
      exact .inr ⟨hopen, rfl⟩

theorem sameCaches_task (s : State Channel) (n : ℕ) (t : RequestTask Channel) (pick : ℕ) :
    SameCaches s (s.task n t pick) := by
  rcases s.task_cases n t pick with ⟨-, h⟩ | ⟨-, -, ch, -, -, ⟨-, h⟩ | ⟨-, h⟩⟩ <;> rw [h] <;>
    exact ⟨rfl, rfl, rfl, rfl, rfl⟩

omit [DecidableEq Channel] in
theorem sameCaches_tryDownloadNext (s : State Channel) (id : BlockId) :
    SameCaches s (s.tryDownloadNext id) := by
  rw [State.tryDownloadNext_eq]
  exact ⟨rfl, rfl, rfl, rfl, rfl⟩

theorem State.mem_owners_insert {s : State Channel} {totalSig totalSig' : MicroBlockSignature}
    {ch ch' : Channel} :
    ch' ∈ (s.microBlockOwners.insert totalSig ((s.owners totalSig).insert ch)).getOrElse
        totalSig' [] ↔
      ch' ∈ s.owners totalSig' ∨ ch' = ch ∧ totalSig' = totalSig := by
  unfold State.owners FiniteMap.getOrElse
  rw [FiniteMap.get?_insert]
  by_cases h : totalSig' = totalSig
  · subst h
    rw [if_pos rfl, Option.getD_some, List.mem_insert_iff]
    tauto
  · rw [if_neg h]
    tauto

/-- The state once a valid announcement is recorded, before anything is requested. -/
def State.record (s : State Channel) (ch : Channel) (mbInv : MicroBlockInv) : State Channel :=
  { s with
    microBlockOwners := s.microBlockOwners.insert mbInv.totalBlockSig
      ((s.owners mbInv.totalBlockSig).insert ch)
    nextInvs := if s.nextInvs.contains mbInv.prevBlockSig then s.nextInvs
      else s.nextInvs.insert mbInv.prevBlockSig mbInv }

theorem State.record_nextInvs (s : State Channel) (ch : Channel) (mbInv : MicroBlockInv)
    (prevSig : MicroBlockSignature) :
    (s.record ch mbInv).nextInvs.get? prevSig = (s.nextInvs.get? prevSig).or
      ((some mbInv).filter (·.prevBlockSig = prevSig)) := by
  show FiniteMap.get? (if _ then _ else _) _ = _
  rw [Option.filter_some]
  by_cases hc : s.nextInvs.contains mbInv.prevBlockSig
  · rw [if_pos hc]
    by_cases hp : mbInv.prevBlockSig = prevSig
    · subst hp
      obtain ⟨first, hfirst⟩ := Option.isSome_iff_exists.mp hc
      rw [hfirst, Option.some_or]
    · simp [hp]
  · rw [if_neg hc, FiniteMap.get?_insert]
    by_cases hp : prevSig = mbInv.prevBlockSig
    · subst hp
      have hnone : s.nextInvs.get? mbInv.prevBlockSig = none := by
        simpa [FiniteMap.contains] using hc
      simp [hnone]
    · simp [hp, Ne.symm hp]

omit [DecidableEq Channel] in
/-- A response is remembered whether or not it was awaited; what else it changes are the
cache of what is awaited and the micro-blocks passed downstream. -/
theorem State.onResponse_caches (s : State Channel) (ch : Channel) (mb : MicroBlock) :
    SameCaches { s with
      successfullyReceived := s.successfullyReceived.insert mb.totalResBlockSig () }
      (s.onResponse ch mb) := by
  unfold State.onResponse
  simp only
  cases s.awaiting.get? mb.totalResBlockSig <;> exact ⟨rfl, rfl, rfl, rfl, rfl⟩

/-! ## 3. The history of a run

What the caches hold is read off the events handled so far. -/

section History

variable [Crypto]

/-- The announcement that an event brings, if its signature is valid. -/
def Event.announcement : Event Channel → Option (Channel × MicroBlockInv)
  | .microblockInv ch mbInv => if mbInv.signatureValid then some (ch, mbInv) else none
  | _ => none

def announcements (events : List (Event Channel)) : List (Channel × MicroBlockInv) :=
  events.filterMap Event.announcement

/-- The first announcement on top of a block. -/
def firstInv (events : List (Event Channel)) (prevSig : MicroBlockSignature) :
    Option MicroBlockInv :=
  ((announcements events).map Prod.snd).find? (·.prevBlockSig = prevSig)

/-- Some channel announced the micro-block, on top of some block. -/
def Owns (events : List (Event Channel)) (ch : Channel) (totalSig : MicroBlockSignature) : Prop :=
  ∃ mbInv, (ch, mbInv) ∈ announcements events ∧ mbInv.totalBlockSig = totalSig

/-- The last block id of an event that changes it. -/
def Event.blockId : Event Channel → Option BlockId
  | .lastBlockId id => some id
  | _ => none

def currentId (events : List (Event Channel)) : Option BlockId :=
  (events.filterMap Event.blockId).getLast?

/-- The micro-block that a response brings. -/
def Event.received : Event Channel → Option MicroBlockSignature
  | .microblockResponse _ mb => some mb.totalResBlockSig
  | _ => none

/-- What the state knows of the history. -/
structure Tracks (events : List (Event Channel)) (s : State Channel) : Prop where
  closed : ∀ ch, ch ∈ s.closed ↔ .closed ch ∈ events
  lastBlockId : s.lastBlockId = currentId events
  nextInvs : ∀ prevSig, s.nextInvs.get? prevSig = firstInv events prevSig
  owners : ∀ totalSig ch, ch ∈ s.owners totalSig ↔ Owns events ch totalSig
  received : ∀ totalSig, s.alreadyProcessed totalSig ↔ totalSig ∈ events.filterMap Event.received

omit [DecidableEq Channel] in
theorem announcements_concat (events : List (Event Channel)) (e : Event Channel) :
    announcements (events ++ [e]) = announcements events ++ e.announcement.toList := by
  unfold announcements
  rw [List.filterMap_append]
  cases h : e.announcement <;> simp [h]

omit [DecidableEq Channel] in
theorem announcements_concat_none {events : List (Event Channel)} {e : Event Channel}
    (h : e.announcement = none) : announcements (events ++ [e]) = announcements events := by
  rw [announcements_concat, h, Option.toList_none, List.append_nil]

omit [DecidableEq Channel] in
theorem owns_concat {events : List (Event Channel)} {e : Event Channel} {ch : Channel}
    {totalSig : MicroBlockSignature} :
    Owns (events ++ [e]) ch totalSig ↔ Owns events ch totalSig ∨
      ∃ mbInv, e.announcement = some (ch, mbInv) ∧ mbInv.totalBlockSig = totalSig := by
  unfold Owns
  simp only [announcements_concat, List.mem_append, Option.mem_toList, or_and_right, exists_or]

omit [DecidableEq Channel] in
theorem firstInv_concat (events : List (Event Channel)) (e : Event Channel)
    (prevSig : MicroBlockSignature) :
    firstInv (events ++ [e]) prevSig = (firstInv events prevSig).or
      ((e.announcement.map Prod.snd).filter (·.prevBlockSig = prevSig)) := by
  unfold firstInv
  rw [announcements_concat, List.map_append, List.find?_append]
  cases e.announcement with
  | none => rfl
  | some a =>
    simp only [Option.toList_some, List.map_cons, List.map_nil, List.find?_cons, List.find?_nil,
      Option.map_some, Option.filter_some]
    cases decide (a.2.prevBlockSig = prevSig) <;> rfl

omit [DecidableEq Channel] [Crypto] in
theorem currentId_concat (events : List (Event Channel)) (e : Event Channel) :
    currentId (events ++ [e]) = e.blockId.or (currentId events) := by
  unfold currentId
  rw [List.filterMap_append]
  cases h : e.blockId <;> simp [h]

theorem State.onInv_eq (s : State Channel) (ch : Channel) {mbInv : MicroBlockInv}
    (h : mbInv.signatureValid) :
    s.onInv ch mbInv =
      if s.lastBlockId = some mbInv.prevBlockSig ∧ ¬ s.alreadyRequested mbInv.totalBlockSig then
        (s.record ch mbInv).tryDownloadNext mbInv.prevBlockSig
      else s.record ch mbInv := by
  unfold State.onInv
  exact if_pos h

theorem sameCaches_onInv (s : State Channel) (ch : Channel) {mbInv : MicroBlockInv}
    (h : mbInv.signatureValid) : SameCaches (s.record ch mbInv) (s.onInv ch mbInv) := by
  rw [s.onInv_eq ch h]
  split
  · exact sameCaches_tryDownloadNext _ _
  · exact ⟨rfl, rfl, rfl, rfl, rfl⟩

omit [DecidableEq Channel] in
/-- One more event: the five things that the state knows, from before and from it. -/
theorem Tracks.concat {events : List (Event Channel)} {s s' : State Channel} {e : Event Channel}
    (h : Tracks events s)
    (hclosed : ∀ ch, ch ∈ s'.closed ↔ ch ∈ s.closed ∨ .closed ch = e)
    (hid : s'.lastBlockId = e.blockId.or s.lastBlockId)
    (hnext : ∀ prevSig, s'.nextInvs.get? prevSig = (s.nextInvs.get? prevSig).or
      ((e.announcement.map Prod.snd).filter (·.prevBlockSig = prevSig)))
    (howners : ∀ totalSig ch, ch ∈ s'.owners totalSig ↔ ch ∈ s.owners totalSig ∨
      ∃ mbInv, e.announcement = some (ch, mbInv) ∧ mbInv.totalBlockSig = totalSig)
    (hreceived : ∀ totalSig, s'.alreadyProcessed totalSig ↔
      s.alreadyProcessed totalSig ∨ e.received = some totalSig) :
    Tracks (events ++ [e]) s' := by
  refine ⟨fun ch => ?_, ?_, fun prevSig => ?_, fun totalSig ch => ?_, fun totalSig => ?_⟩
  · rw [hclosed, h.closed, List.mem_append, List.mem_singleton]
  · rw [hid, h.lastBlockId, currentId_concat]
  · rw [hnext, h.nextInvs, firstInv_concat]
  · rw [howners, h.owners, owns_concat]
  · rw [hreceived, h.received, List.filterMap_append, List.mem_append]
    cases he : e.received <;> simp [he, eq_comm]

omit [DecidableEq Channel] in
theorem Tracks.of_sameCaches {events : List (Event Channel)} {s s' : State Channel}
    (h : Tracks events s) (hs : SameCaches s s') : Tracks events s' := by
  refine ⟨fun ch => ?_, hs.lastBlockId.trans h.lastBlockId, fun prevSig => ?_,
    fun totalSig ch => ?_, fun totalSig => ?_⟩
  · rw [hs.closed, h.closed]
  · rw [hs.nextInvs, h.nextInvs]
  · unfold State.owners
    rw [hs.owners]
    exact h.owners totalSig ch
  · unfold State.alreadyProcessed
    rw [hs.received]
    exact h.received totalSig

omit [DecidableEq Channel] in
/-- An event that changes only the tasks and the requests they wrote. -/
theorem Tracks.concat_of_sameCaches {events : List (Event Channel)} {s s' : State Channel}
    {e : Event Channel} (h : Tracks events s) (hs : SameCaches s s')
    (hann : e.announcement = none) (hid : e.blockId = none) (hrec : e.received = none)
    (hclosed : ∀ ch, .closed ch ≠ e) : Tracks (events ++ [e]) s' := by
  refine (h.of_sameCaches hs).concat (fun ch => ?_) ?_ (fun prevSig => ?_) (fun totalSig ch => ?_)
    fun totalSig => ?_
  · simp [hclosed]
  · rw [hid, Option.none_or]
  · simp [hann]
  · simp [hann]
  · simp [hrec]

theorem step_download_cons {s : State Channel} {id : BlockId} {rest : List BlockId}
    (h : s.toDownload = id :: rest) :
    step s .download = { s with toDownload := rest }.tryDownloadNext id := by
  unfold step
  simp only [h]

theorem step_download (s : State Channel) : SameCaches s (step s .download) := by
  cases h : s.toDownload with
  | nil =>
    unfold step
    simp only [h]
    exact ⟨rfl, rfl, rfl, rfl, rfl⟩
  | cons id rest =>
    rw [step_download_cons h]
    have hs := sameCaches_tryDownloadNext { s with toDownload := rest } id
    exact ⟨hs.owners, hs.nextInvs, hs.received, hs.lastBlockId, hs.closed⟩

theorem step_task_some {s : State Channel} {n : ℕ} {t : RequestTask Channel}
    (h : s.tasks[n]? = some t) (pick : ℕ) : step s (.task n pick) = s.task n t pick := by
  unfold step
  simp only [h]

theorem step_task_none {s : State Channel} {n : ℕ} (h : s.tasks[n]? = none) (pick : ℕ) :
    step s (.task n pick) = s := by
  unfold step
  simp only [h]

theorem step_task (s : State Channel) (n pick : ℕ) : SameCaches s (step s (.task n pick)) := by
  cases h : s.tasks[n]? with
  | none =>
    rw [step_task_none h]
    exact ⟨rfl, rfl, rfl, rfl, rfl⟩
  | some t =>
    rw [step_task_some h]
    exact sameCaches_task s n t pick

theorem Tracks.next {events : List (Event Channel)} {s : State Channel} (h : Tracks events s)
    (e : Event Channel) : Tracks (events ++ [e]) (step s e) := by
  cases e with
  | lastBlockId id =>
    refine h.concat ?_ rfl ?_ ?_ ?_ <;>
      simp [step, Event.announcement, Event.received, State.owners, State.alreadyProcessed]
  | download => exact h.concat_of_sameCaches (step_download s) rfl rfl rfl (by simp)
  | microblockInv ch mbInv =>
    by_cases hv : mbInv.signatureValid
    · have hs := sameCaches_onInv s ch hv
      have hann : (Event.microblockInv ch mbInv).announcement = some (ch, mbInv) := if_pos hv
      refine h.concat (fun c => ?_) hs.lastBlockId (fun prevSig => ?_) (fun totalSig c => ?_)
        fun totalSig => ?_
      · show c ∈ (s.onInv ch mbInv).closed ↔ _
        simp [hs.closed, State.record]
      · show (s.onInv ch mbInv).nextInvs.get? prevSig = _
        rw [hs.nextInvs, State.record_nextInvs, hann, Option.map_some]
      · show c ∈ (s.onInv ch mbInv).microBlockOwners.getOrElse totalSig [] ↔ _
        rw [hs.owners]
        show c ∈ (s.microBlockOwners.insert _ _).getOrElse totalSig [] ↔ _
        rw [State.mem_owners_insert, hann]
        simp [eq_comm]
      · show (s.onInv ch mbInv).successfullyReceived.contains totalSig ↔ _
        rw [hs.received]
        simp [Event.received, State.record, State.alreadyProcessed]
    · have hann : (Event.microblockInv ch mbInv).announcement = none := if_neg hv
      have hstep : step s (.microblockInv ch mbInv) = { s with blacklisted := ch :: s.blacklisted } :=
        if_neg hv
      rw [hstep]
      exact h.concat_of_sameCaches ⟨rfl, rfl, rfl, rfl, rfl⟩ hann rfl rfl (by simp)
  | task n pick => exact h.concat_of_sameCaches (step_task s n pick) rfl rfl rfl (by simp)
  | microblockResponse ch mb =>
    have hs := s.onResponse_caches ch mb
    refine h.concat (fun c => ?_) hs.lastBlockId (fun prevSig => ?_) (fun totalSig c => ?_)
      fun totalSig => ?_
    · show c ∈ (s.onResponse ch mb).closed ↔ _
      simp [hs.closed]
    · show (s.onResponse ch mb).nextInvs.get? prevSig = _
      simp [hs.nextInvs, Event.announcement]
    · show c ∈ (s.onResponse ch mb).microBlockOwners.getOrElse totalSig [] ↔ _
      rw [hs.owners]
      simp [Event.announcement, State.owners]
    · show (s.onResponse ch mb).successfullyReceived.contains totalSig ↔ _
      rw [hs.received]
      simp only [FiniteMap.contains, FiniteMap.get?_insert, Event.received, State.alreadyProcessed,
        Option.some.injEq]
      by_cases ht : totalSig = mb.totalResBlockSig
      · simp [ht]
      · simp [ht, Ne.symm ht]
  | closed ch =>
    refine h.concat (fun c => ?_) rfl ?_ ?_ ?_
    · simp [step, or_comm]
    all_goals
      simp [step, Event.announcement, Event.received, State.owners, State.alreadyProcessed]

theorem tracks_run (events : List (Event Channel)) : Tracks events (run events) := by
  refine EventRun.invariant step {} (I := Tracks) ?_ (fun past e h => h.next e) events
  refine ⟨?_, rfl, fun _ => rfl, ?_, ?_⟩ <;>
    simp [Owns, announcements, State.owners, FiniteMap.getOrElse, State.alreadyProcessed,
      FiniteMap.contains]

/-! ## 4. What is requested, and what is due -/

/-- Some owner was asked for the micro-block. -/
def State.Asked (s : State Channel) (totalSig : MicroBlockSignature) : Prop :=
  ∃ owner, (owner, totalSig) ∈ s.requests

/-- A task for the micro-block has an attempt left, and may still ask the channel. -/
def State.Scheduled (s : State Channel) (ch : Channel) (totalSig : MicroBlockSignature) : Prop :=
  ∃ t ∈ s.tasks, t.mbInv.totalBlockSig = totalSig ∧ 0 < t.attemptsAllowed ∧ ch ∉ t.exclude

/-- What every event but a step of a task does to the requests and the tasks. -/
structure KeepsTasks (s s' : State Channel) : Prop where
  requests : s'.requests = s.requests
  awaiting : ∀ totalSig, s'.alreadyRequested totalSig → s.alreadyRequested totalSig
  tasks : s.tasks ⊆ s'.tasks

omit [DecidableEq Channel] [Crypto] in
theorem keepsTasks_tryDownloadNext (s : State Channel) (id : BlockId) :
    KeepsTasks s (s.tryDownloadNext id) := by
  rw [State.tryDownloadNext_eq]
  exact ⟨rfl, fun _ h => h, List.subset_append_left _ _⟩

theorem keepsTasks_onInv (s : State Channel) (ch : Channel) (mbInv : MicroBlockInv) :
    KeepsTasks s (s.onInv ch mbInv) := by
  by_cases hv : mbInv.signatureValid
  · rw [s.onInv_eq ch hv]
    split
    · have hd := keepsTasks_tryDownloadNext (s.record ch mbInv) mbInv.prevBlockSig
      exact ⟨hd.requests, hd.awaiting, hd.tasks⟩
    · exact ⟨rfl, fun _ h => h, List.Subset.refl _⟩
  · have hinv : s.onInv ch mbInv = { s with blacklisted := ch :: s.blacklisted } := if_neg hv
    rw [hinv]
    exact ⟨rfl, fun _ h => h, List.Subset.refl _⟩

omit [DecidableEq Channel] [Crypto] in
theorem keepsTasks_onResponse (s : State Channel) (ch : Channel) (mb : MicroBlock) :
    KeepsTasks s (s.onResponse ch mb) := by
  unfold State.onResponse
  simp only
  cases s.awaiting.get? mb.totalResBlockSig with
  | none => exact ⟨rfl, fun _ h => h, List.Subset.refl _⟩
  | some mi =>
    refine ⟨rfl, fun totalSig h => ?_, List.Subset.refl _⟩
    unfold State.alreadyRequested FiniteMap.contains at h ⊢
    rw [FiniteMap.get?_erase] at h
    split at h
    · cases h
    · exact h

theorem keepsTasks_step (s : State Channel) {e : Event Channel} (he : ∀ n pick, e ≠ .task n pick) :
    KeepsTasks s (step s e) := by
  cases e with
  | lastBlockId id => exact ⟨rfl, fun _ h => h, List.Subset.refl _⟩
  | download =>
    cases h : s.toDownload with
    | nil =>
      unfold step
      simp only [h]
      exact ⟨rfl, fun _ h => h, List.Subset.refl _⟩
    | cons id rest =>
      rw [step_download_cons h]
      have hd := keepsTasks_tryDownloadNext { s with toDownload := rest } id
      exact ⟨hd.requests, hd.awaiting, hd.tasks⟩
  | microblockInv ch mbInv => exact keepsTasks_onInv s ch mbInv
  | task n pick => exact absurd rfl (he n pick)
  | microblockResponse ch mb => exact keepsTasks_onResponse s ch mb
  | closed ch => exact ⟨rfl, fun _ h => h, List.Subset.refl _⟩

/-- Nothing that was asked for is forgotten. -/
theorem asked_step {s : State Channel} {totalSig : MicroBlockSignature} (h : s.Asked totalSig)
    (e : Event Channel) : (step s e).Asked totalSig := by
  obtain ⟨owner, howner⟩ := h
  by_cases he : ∀ n pick, e ≠ .task n pick
  · refine ⟨owner, ?_⟩
    rw [(keepsTasks_step s he).requests]
    exact howner
  push Not at he
  obtain ⟨n, pick, rfl⟩ := he
  refine ⟨owner, ?_⟩
  cases hn : s.tasks[n]? with
  | none =>
    rw [step_task_none hn]
    exact howner
  | some t =>
    rw [step_task_some hn]
    rcases s.task_cases n t pick with ⟨-, h⟩ | ⟨-, -, ch, -, -, ⟨-, h⟩ | ⟨-, h⟩⟩ <;> rw [h]
    · exact howner
    · exact List.mem_append_left _ howner
    · exact howner

/-- Requests go to owners only, and what is awaited was requested. -/
structure Recorded (events : List (Event Channel)) (s : State Channel) : Prop where
  owned : ∀ owner totalSig, (owner, totalSig) ∈ s.requests → Owns events owner totalSig
  awaited : ∀ totalSig, s.alreadyRequested totalSig → s.Asked totalSig

theorem Recorded.next {events : List (Event Channel)} {s : State Channel} (h : Recorded events s)
    (ht : Tracks events s) (e : Event Channel) : Recorded (events ++ [e]) (step s e) := by
  by_cases he : ∀ n pick, e ≠ .task n pick
  · have hk := keepsTasks_step s he
    refine ⟨fun owner totalSig hr => ?_, fun totalSig ha => ?_⟩
    · rw [hk.requests] at hr
      exact owns_concat.mpr (.inl (h.owned owner totalSig hr))
    · exact asked_step (h.awaited totalSig (hk.awaiting totalSig ha)) e
  push Not at he
  obtain ⟨n, pick, rfl⟩ := he
  have hkeep : Recorded (events ++ [.task n pick]) s :=
    ⟨fun owner totalSig hr => owns_concat.mpr (.inl (h.owned owner totalSig hr)), h.awaited⟩
  cases hn : s.tasks[n]? with
  | none =>
    rw [step_task_none hn]
    exact hkeep
  | some t =>
    rw [step_task_some hn]
    rcases s.task_cases n t pick with ⟨-, hs⟩ | ⟨-, -, ch, hch, -, ⟨-, hs⟩ | ⟨-, hs⟩⟩ <;> rw [hs]
    · exact ⟨hkeep.owned, hkeep.awaited⟩
    · -- The one step that writes a request also starts to await the answer.
      refine ⟨fun owner totalSig hr => ?_, fun totalSig ha => ?_⟩
      · rw [List.mem_append, List.mem_singleton, Prod.mk.injEq] at hr
        rcases hr with hr | ⟨rfl, rfl⟩
        · exact hkeep.owned owner totalSig hr
        · exact owns_concat.mpr (.inl ((ht.owners _ _).mp hch))
      · unfold State.alreadyRequested FiniteMap.contains at ha
        rw [FiniteMap.get?_insert] at ha
        by_cases hsig : totalSig = t.mbInv.totalBlockSig
        · subst hsig
          exact ⟨ch, by simp⟩
        · rw [if_neg hsig] at ha
          obtain ⟨owner, howner⟩ := hkeep.awaited totalSig ha
          exact ⟨owner, List.mem_append_left _ howner⟩
    · exact ⟨hkeep.owned, hkeep.awaited⟩

theorem recorded_run (events : List (Event Channel)) : Recorded events (run events) := by
  refine EventRun.invariant step {} (I := Recorded) ?_ (fun past e h => h.next (tracks_run past) e)
    events
  refine ⟨?_, ?_⟩ <;> simp [State.alreadyRequested, FiniteMap.contains]

/-! ## 5. No announced micro-block is left behind

For an owner whose channel is open, the micro-block that it announced on top of the last
block has been asked for, or something is due that may ask this very owner. The
micro-block has to be the first that was announced on top of that block. -/

/-- What is due for the micro-blocks on top of the last block. -/
def Progress (events : List (Event Channel)) (s : State Channel) : Prop :=
  ∀ ch mbInv first, (ch, mbInv) ∈ announcements events → .closed ch ∉ events →
    s.lastBlockId = some mbInv.prevBlockSig → s.nextInvs.get? mbInv.prevBlockSig = some first →
    first.totalBlockSig = mbInv.totalBlockSig → ¬ s.alreadyProcessed mbInv.totalBlockSig →
    s.Asked mbInv.totalBlockSig ∨ mbInv.prevBlockSig ∈ s.toDownload ∨
      s.Scheduled ch mbInv.totalBlockSig

omit [DecidableEq Channel] [Crypto] in
theorem State.Scheduled.mono {s s' : State Channel} {ch : Channel} {totalSig : MicroBlockSignature}
    (h : s.Scheduled ch totalSig) (hs : s.tasks ⊆ s'.tasks) : s'.Scheduled ch totalSig := by
  obtain ⟨t, ht, hsig⟩ := h
  exact ⟨t, hs ht, hsig⟩

omit [DecidableEq Channel] [Crypto] in
/-- `tryDownloadNext` starts a task for the first announcement, which excludes nobody. -/
theorem scheduled_tryDownloadNext {s : State Channel} {id : BlockId} {first : MicroBlockInv}
    (h : s.nextInvs.get? id = some first) (ch : Channel) :
    (s.tryDownloadNext id).Scheduled ch first.totalBlockSig := by
  rw [State.tryDownloadNext_eq, h]
  exact ⟨⟨first, MicroBlockDownloadAttempts, []⟩, by simp, rfl, Nat.two_pos, by simp⟩

omit [DecidableEq Channel] in
theorem firstInv_isSome {events : List (Event Channel)} {ch : Channel} {mbInv : MicroBlockInv}
    (h : (ch, mbInv) ∈ announcements events) : (firstInv events mbInv.prevBlockSig).isSome := by
  unfold firstInv
  rw [List.find?_isSome]
  exact ⟨mbInv, List.mem_map_of_mem h, by simp⟩

/-- An announcement asks for what is on top of the last block, unless it was asked for. -/
theorem Progress.onInv {events : List (Event Channel)} {s : State Channel}
    (h : Progress events s) (ht : Tracks events s) (hr : Recorded events s) {c : Channel}
    {inv : MicroBlockInv} (hv : inv.signatureValid) :
    Progress (events ++ [.microblockInv c inv]) (s.onInv c inv) := by
  intro ch mbInv first hann hopen hlast hfirst hsame hnew
  have hs := sameCaches_onInv s c hv
  have hk := keepsTasks_onInv s c inv
  have hin : (Event.microblockInv c inv).announcement = some (c, inv) := if_pos hv
  rw [announcements_concat, hin, List.mem_append, Option.toList_some, List.mem_singleton] at hann
  have hasked : s.Asked mbInv.totalBlockSig → (s.onInv c inv).Asked mbInv.totalBlockSig :=
    fun ⟨owner, howner⟩ => ⟨owner, hk.requests ▸ howner⟩
  rcases hann with hold | hthis
  · -- Announced before: the first announcement is the one known then.
    have hknown : s.nextInvs.get? mbInv.prevBlockSig = some first := by
      obtain ⟨known, hknown⟩ := Option.isSome_iff_exists.mp (firstInv_isSome hold)
      rw [hs.nextInvs, State.record_nextInvs, ht.nextInvs, hknown, Option.some_or] at hfirst
      rw [ht.nextInvs, hknown, hfirst]
    have hlast' : s.lastBlockId = some mbInv.prevBlockSig := by
      rw [← hlast, hs.lastBlockId]
      rfl
    have hnew' : ¬ s.alreadyProcessed mbInv.totalBlockSig := by
      unfold State.alreadyProcessed at hnew ⊢
      rwa [hs.received] at hnew
    have hopen' : .closed ch ∉ events := fun hc => hopen (List.mem_append_left _ hc)
    rcases h ch mbInv first hold hopen' hlast' hknown hsame hnew' with ha | hd | hsch
    · exact .inl (hasked ha)
    · refine .inr (.inl ?_)
      rw [s.onInv_eq c hv]
      split
      · rw [State.tryDownloadNext_eq]
        exact hd
      · exact hd
    · exact .inr (.inr (hsch.mono hk.tasks))
  · -- Announced now, on top of the last block.
    obtain ⟨rfl, rfl⟩ := Prod.mk.inj hthis
    have hlast' : s.lastBlockId = some mbInv.prevBlockSig := by
      rw [← hlast, hs.lastBlockId]
      rfl
    by_cases ha : s.alreadyRequested mbInv.totalBlockSig
    · exact .inl (hasked (hr.awaited _ ha))
    · refine .inr (.inr ?_)
      rw [s.onInv_eq ch hv, if_pos ⟨hlast', ha⟩, ← hsame]
      exact scheduled_tryDownloadNext (by rw [← hs.nextInvs, hfirst]) ch

omit [Crypto] in
/-- A step of a task asks for its micro-block, or may still ask the open owner. -/
theorem State.Scheduled.task {s : State Channel} {n : ℕ} {t : RequestTask Channel} {ch : Channel}
    {totalSig : MicroBlockSignature} (h : s.Scheduled ch totalSig) (ht : s.tasks[n]? = some t)
    (hopen : s.isOpen ch) (howner : ch ∈ s.owners totalSig) (hnew : ¬ s.alreadyProcessed totalSig)
    (pick : ℕ) : (s.task n t pick).Asked totalSig ∨ (s.task n t pick).Scheduled ch totalSig := by
  obtain ⟨u, hu, hsig, hattempts, hch⟩ := h
  obtain ⟨m, hm⟩ := List.mem_iff_getElem?.mp hu
  have hlt : n < s.tasks.length := (List.getElem?_eq_some_iff.mp ht).1
  by_cases hmn : m = n
  · -- The task that runs is the one scheduled for this owner.
    subst hmn
    obtain rfl : t = u := Option.some.inj (ht.symm.trans hm)
    subst hsig
    rcases s.task_cases m t pick with ⟨hend, -⟩ | ⟨-, -, c, -, -, ⟨-, hs⟩ | ⟨hclosed, hs⟩⟩
    · rcases hend with h0 | hp | hall
      · omega
      · exact absurd hp hnew
      · exact absurd (hall ch howner) hch
    · rw [hs]
      exact .inl ⟨c, by simp⟩
    · have hne : ch ≠ c := fun hc => hclosed (hc ▸ hopen)
      rw [hs]
      refine .inr ⟨{ t with exclude := c :: t.exclude }, List.mem_set hlt _, rfl, hattempts, ?_⟩
      simp [hne, hch]
  · -- Another task runs, and this one stays where it is.
    right
    rcases s.task_cases n t pick with ⟨-, hs⟩ | ⟨-, -, c, -, -, ⟨-, hs⟩ | ⟨-, hs⟩⟩ <;> rw [hs]
    · exact ⟨u, List.mem_eraseIdx_iff_getElem?.mpr ⟨m, hmn, hm⟩, hsig, hattempts, hch⟩
    all_goals
      refine ⟨u, List.mem_iff_getElem?.mpr ⟨m, ?_⟩, hsig, hattempts, hch⟩
      rw [List.getElem?_set_ne (Ne.symm hmn)]
      exact hm

/-- **The step lemma**: no event leaves an announced micro-block behind. -/
theorem Progress.next {events : List (Event Channel)} {s : State Channel} (h : Progress events s)
    (ht : Tracks events s) (hr : Recorded events s) (e : Event Channel) :
    Progress (events ++ [e]) (step s e) := by
  cases e with
  | lastBlockId id =>
    intro ch mbInv first _ _ hlast _ _ _
    have hid : id = mbInv.prevBlockSig := Option.some.inj hlast
    exact .inr (.inl (List.mem_append_right _ (by simp [hid])))
  | download =>
    intro ch mbInv first hann hopen hlast hfirst hsame hnew
    have hs := step_download s
    have hk := keepsTasks_step s (e := .download) (by simp)
    rw [hs.lastBlockId] at hlast
    rw [hs.nextInvs] at hfirst
    unfold State.alreadyProcessed at hnew
    rw [hs.received] at hnew
    have hopen' : .closed ch ∉ events := fun hc => hopen (List.mem_append_left _ hc)
    rw [announcements_concat_none rfl] at hann
    rcases h ch mbInv first hann hopen' hlast hfirst hsame hnew with ha | hd | hsch
    · exact .inl (asked_step ha _)
    · cases hq : s.toDownload with
      | nil =>
        rw [hq] at hd
        cases hd
      | cons id rest =>
        rw [step_download_cons hq]
        rw [hq, List.mem_cons] at hd
        rcases hd with rfl | hrest
        · rw [← hsame]
          exact .inr (.inr (scheduled_tryDownloadNext (s := { s with toDownload := rest }) hfirst ch))
        · rw [State.tryDownloadNext_eq]
          exact .inr (.inl hrest)
    · exact .inr (.inr (hsch.mono hk.tasks))
  | microblockInv c inv =>
    by_cases hv : inv.signatureValid
    · exact h.onInv ht hr hv
    · have hann : (Event.microblockInv c inv).announcement = none := if_neg hv
      have hstep : step s (.microblockInv c inv) = { s with blacklisted := c :: s.blacklisted } :=
        if_neg hv
      intro ch mbInv first hin hopen hlast hfirst hsame hnew
      rw [announcements_concat_none hann] at hin
      rw [hstep] at hlast hfirst hnew ⊢
      exact h ch mbInv first hin (fun hc => hopen (List.mem_append_left _ hc)) hlast hfirst hsame
        hnew
  | task n pick =>
    intro ch mbInv first hann hopen hlast hfirst hsame hnew
    have hs := step_task s n pick
    have hopen' : .closed ch ∉ events := fun hc => hopen (List.mem_append_left _ hc)
    rw [announcements_concat_none rfl] at hann
    have hisOpen : s.isOpen ch := by
      unfold State.isOpen
      simpa [ht.closed] using hopen'
    have howner : ch ∈ s.owners mbInv.totalBlockSig := (ht.owners _ _).mpr ⟨mbInv, hann, rfl⟩
    rw [hs.lastBlockId] at hlast
    rw [hs.nextInvs] at hfirst
    unfold State.alreadyProcessed at hnew
    rw [hs.received] at hnew
    cases hn : s.tasks[n]? with
    | none =>
      rw [step_task_none hn]
      exact h ch mbInv first hann hopen' hlast hfirst hsame hnew
    | some t =>
      rcases h ch mbInv first hann hopen' hlast hfirst hsame hnew with ha | hd | hsch
      · exact .inl (asked_step ha (.task n pick))
      all_goals rw [step_task_some hn]
      · refine .inr (.inl ?_)
        rcases s.task_cases n t pick with ⟨-, hs⟩ | ⟨-, -, c, -, -, ⟨-, hs⟩ | ⟨-, hs⟩⟩ <;> rw [hs] <;>
          exact hd
      · rcases hsch.task hn hisOpen howner hnew pick with ha | hs'
        · exact .inl ha
        · exact .inr (.inr hs')
  | microblockResponse c mb =>
    intro ch mbInv first hann hopen hlast hfirst hsame hnew
    have hs := s.onResponse_caches c mb
    have hk := keepsTasks_onResponse s c mb
    have hopen' : .closed ch ∉ events := fun hc => hopen (List.mem_append_left _ hc)
    rw [announcements_concat_none rfl] at hann
    have hlast' : s.lastBlockId = some mbInv.prevBlockSig := hs.lastBlockId.symm.trans hlast
    have hfirst' : s.nextInvs.get? mbInv.prevBlockSig = some first := by
      rw [← hfirst]
      exact congrArg (·.get? mbInv.prevBlockSig) hs.nextInvs.symm
    have hnew' : ¬ s.alreadyProcessed mbInv.totalBlockSig := by
      intro hp
      apply hnew
      show (s.onResponse c mb).successfullyReceived.contains _
      rw [hs.received]
      unfold State.alreadyProcessed FiniteMap.contains at hp
      unfold FiniteMap.contains
      rw [FiniteMap.get?_insert]
      split
      · rfl
      · exact hp
    rcases h ch mbInv first hann hopen' hlast' hfirst' hsame hnew' with ha | hd | hsch
    · exact .inl (asked_step ha (.microblockResponse c mb))
    · refine .inr (.inl ?_)
      show _ ∈ (s.onResponse c mb).toDownload
      unfold State.onResponse
      simp only
      cases s.awaiting.get? mb.totalResBlockSig <;> exact hd
    · exact .inr (.inr (hsch.mono hk.tasks))
  | closed c =>
    intro ch mbInv first hann hopen hlast hfirst hsame hnew
    rw [announcements_concat_none rfl] at hann
    exact h ch mbInv first hann (fun hc => hopen (List.mem_append_left _ hc)) hlast hfirst hsame hnew

theorem progress_run (events : List (Event Channel)) : Progress events (run events) := by
  refine EventRun.invariant step {} (I := Progress) ?_
    (fun past e h => h.next (tracks_run past) (recorded_run past) e) events
  intro ch mbInv first hann
  simp [announcements] at hann

/-! ## 6. Every micro-block announced on top of the last block is asked for -/

/-- The micro-block was requested from one of its owners. -/
def Requested (events : List (Event Channel)) (totalSig : MicroBlockSignature) : Prop :=
  ∃ owner, Owns events owner totalSig ∧ (owner, totalSig) ∈ (run events).requests

/-- A request for the micro-block is due, and an owner that can be asked is there: a task
may still ask it, or `tryDownloadNext` has still to start one. -/
def Requesting (events : List (Event Channel)) (totalSig : MicroBlockSignature) : Prop :=
  ∃ owner, Owns events owner totalSig ∧ .closed owner ∉ events ∧
    ((run events).Scheduled owner totalSig ∨
      ∃ prevSig ∈ (run events).toDownload, ∃ first, firstInv events prevSig = some first ∧
        first.totalBlockSig = totalSig)

/-- No response brought the micro-block before it was requested. -/
def Solicited (events : List (Event Channel)) (totalSig : MicroBlockSignature) : Prop :=
  ∀ past e later, events = past ++ e :: later → e.received = some totalSig →
    Requested past totalSig

theorem requested_iff {events : List (Event Channel)} {totalSig : MicroBlockSignature} :
    Requested events totalSig ↔ (run events).Asked totalSig := by
  constructor
  · rintro ⟨owner, -, h⟩
    exact ⟨owner, h⟩
  · rintro ⟨owner, h⟩
    exact ⟨owner, (recorded_run events).owned owner totalSig h, h⟩

theorem Requested.later {past : List (Event Channel)} {totalSig : MicroBlockSignature}
    (h : Requested past totalSig) (later : List (Event Channel)) :
    Requested (past ++ later) totalSig := by
  rw [requested_iff] at h ⊢
  unfold run
  rw [EventRun.after_append]
  exact EventRun.stable step (P := fun s => s.Asked totalSig) (fun s e hs => asked_step hs e) h later

/-- **No micro-block that is first on its block is starved**: whatever happened, in
whatever order. -/
theorem requested_or_requesting {events : List (Event Channel)} {ch : Channel}
    {mbInv first : MicroBlockInv} (hann : (ch, mbInv) ∈ announcements events)
    (hopen : .closed ch ∉ events) (hlast : currentId events = some mbInv.prevBlockSig)
    (hfirst : firstInv events mbInv.prevBlockSig = some first)
    (hsame : first.totalBlockSig = mbInv.totalBlockSig)
    (hsolicited : Solicited events mbInv.totalBlockSig) :
    Requested events mbInv.totalBlockSig ∨ Requesting events mbInv.totalBlockSig := by
  have ht := tracks_run events
  by_cases hrec : mbInv.totalBlockSig ∈ events.filterMap Event.received
  · -- It was received, so it had been requested.
    obtain ⟨e, he, hsig⟩ := List.mem_filterMap.mp hrec
    obtain ⟨past, later, rfl⟩ := List.append_of_mem he
    exact .inl ((hsolicited past e later rfl hsig).later _)
  have hnew : ¬ (run events).alreadyProcessed mbInv.totalBlockSig := by rwa [ht.received]
  have howns : Owns events ch mbInv.totalBlockSig := ⟨mbInv, hann, rfl⟩
  rcases progress_run events ch mbInv first hann hopen (ht.lastBlockId.trans hlast)
    ((ht.nextInvs _).trans hfirst) hsame hnew with ha | hd | hsch
  · exact .inl (requested_iff.mpr ha)
  · exact .inr ⟨ch, howns, hopen, .inr ⟨_, hd, first, hfirst, hsame⟩⟩
  · exact .inr ⟨ch, howns, hopen, .inl hsch⟩

/-- A request is only written for a micro-block that was not received. -/
theorem asked_before_step {s : State Channel} {e : Event Channel} {totalSig : MicroBlockSignature}
    (h : (step s e).Asked totalSig) (hrec : s.alreadyProcessed totalSig) : s.Asked totalSig := by
  obtain ⟨owner, howner⟩ := h
  refine ⟨owner, ?_⟩
  by_cases he : ∀ n pick, e ≠ .task n pick
  · rwa [(keepsTasks_step s he).requests] at howner
  push Not at he
  obtain ⟨n, pick, rfl⟩ := he
  cases hn : s.tasks[n]? with
  | none => rwa [step_task_none hn] at howner
  | some t =>
    rw [step_task_some hn] at howner
    rcases s.task_cases n t pick with ⟨-, hs⟩ | ⟨-, hnew, ch, -, -, ⟨-, hs⟩ | ⟨-, hs⟩⟩ <;>
      rw [hs] at howner
    · exact howner
    · rw [List.mem_append, List.mem_singleton, Prod.mk.injEq] at howner
      rcases howner with h | ⟨-, rfl⟩
      · exact h
      · exact absurd hrec hnew
    · exact howner

/-- A micro-block that comes before it was requested is never requested: the response is
remembered although nothing is passed downstream. -/
theorem not_requested_of_unsolicited {past : List (Event Channel)}
    {totalSig : MicroBlockSignature} (hrec : totalSig ∈ past.filterMap Event.received)
    (hreq : ¬ Requested past totalSig) (later : List (Event Channel)) :
    ¬ Requested (past ++ later) totalSig := by
  induction later using List.reverseRecOn with
  | nil => rwa [List.append_nil]
  | append_singleton later e ih =>
    rw [← List.append_assoc, requested_iff]
    intro h
    unfold run at h
    rw [EventRun.after_concat] at h
    have hin : totalSig ∈ (past ++ later).filterMap Event.received := by
      rw [List.filterMap_append]
      exact List.mem_append_left _ hrec
    have hproc := ((tracks_run (past ++ later)).received totalSig).mpr hin
    exact ih (requested_iff.mpr (asked_before_step h hproc))

/-! ## 7. What is due is done

Left alone with its tasks, the synchronizer writes the request, whichever owners it
happens to pick. -/

/-- The owners that a task may still ask. -/
def State.candidates (s : State Channel) (t : RequestTask Channel) : List Channel :=
  (s.owners t.mbInv.totalBlockSig).filter (· ∉ t.exclude)

omit [Crypto] in
theorem candidates_shrink {s s' : State Channel} {t : RequestTask Channel} {c : Channel}
    (hs : SameCaches s s') (hc : c ∈ s.owners t.mbInv.totalBlockSig) (hnot : c ∉ t.exclude) :
    (s'.candidates { t with exclude := c :: t.exclude }).length < (s.candidates t).length := by
  unfold State.candidates State.owners
  rw [hs.owners]
  have hsub : (s.owners t.mbInv.totalBlockSig).filter (· ∉ c :: t.exclude) =
      ((s.owners t.mbInv.totalBlockSig).filter (· ∉ t.exclude)).filter (· ≠ c) := by
    rw [List.filter_filter]
    apply List.filter_congr
    intro x _
    simp [not_or]
  show ((s.owners _).filter _).length < _
  rw [hsub]
  exact List.length_filter_lt_length_iff_exists.mpr ⟨c, by simp [hc, hnot], by simp⟩

theorem scheduled_asks {s : State Channel} {n : ℕ} {t : RequestTask Channel} {ch : Channel}
    (hn : s.tasks[n]? = some t) (hattempts : 0 < t.attemptsAllowed)
    (howner : ch ∈ s.owners t.mbInv.totalBlockSig) (hopen : s.isOpen ch) (hch : ch ∉ t.exclude)
    (hnew : ¬ s.alreadyProcessed t.mbInv.totalBlockSig) (picks : ℕ → ℕ) :
    ∃ k, (EventRun.after step s ((List.range k).map fun i => .task n (picks i))).Asked
      t.mbInv.totalBlockSig := by
  induction hm : (s.candidates t).length using Nat.strong_induction_on generalizing s t picks with
  | _ m ih =>
    have hlt : n < s.tasks.length := (List.getElem?_eq_some_iff.mp hn).1
    have hstep := step_task_some hn (picks 0)
    rcases s.task_cases n t (picks 0) with ⟨hend, -⟩ | ⟨-, -, c, hc, hnot, ⟨-, hs⟩ | ⟨hclosed, hs⟩⟩
    · rcases hend with h0 | hp | hall
      · omega
      · exact absurd hp hnew
      · exact absurd (hall ch howner) hch
    · refine ⟨1, c, ?_⟩
      show (c, _) ∈ (step s (.task n (picks 0))).requests
      rw [hstep, hs]
      simp
    · -- A closed channel is passed over, and the task goes on with fewer owners to ask.
      have hne : ch ≠ c := fun h => hclosed (h ▸ hopen)
      have hsame := sameCaches_task s n t (picks 0)
      have hshrink := candidates_shrink hsame hc hnot
      rw [hm] at hshrink
      obtain ⟨k, hk⟩ := ih _ hshrink (t := { t with exclude := c :: t.exclude })
        (by rw [hs]; simp [hlt]) hattempts (by unfold State.owners; rw [hsame.owners]; exact howner)
        (by unfold State.isOpen; rw [hsame.closed]; exact hopen) (by simp [hne, hch])
        (by unfold State.alreadyProcessed; rw [hsame.received]; exact hnew)
        (fun i => picks (i + 1)) rfl
      refine ⟨k + 1, ?_⟩
      rw [List.range_succ_eq_map, List.map_cons, List.map_map]
      show (EventRun.after step (step s (.task n (picks 0))) _).Asked _
      rw [hstep]
      exact hk

/-- Once `tryDownloadNext` has been called with the ids it is due for, the task is there. -/
theorem downloads_schedule {s : State Channel} {prevSig : MicroBlockSignature}
    {first : MicroBlockInv} (hdue : prevSig ∈ s.toDownload)
    (hfirst : s.nextInvs.get? prevSig = some first) (ch : Channel) :
    ∃ j, (EventRun.after step s (List.replicate j .download)).Scheduled ch first.totalBlockSig ∧
      SameCaches s (EventRun.after step s (List.replicate j .download)) := by
  induction hq : s.toDownload generalizing s with
  | nil =>
    rw [hq] at hdue
    cases hdue
  | cons id rest ih =>
    have hs := step_download s
    have hstep := step_download_cons hq
    rw [hq, List.mem_cons] at hdue
    by_cases hid : prevSig = id
    · subst hid
      refine ⟨1, ?_, hs⟩
      show (step s .download).Scheduled ch first.totalBlockSig
      rw [hstep]
      exact scheduled_tryDownloadNext (s := { s with toDownload := rest }) hfirst ch
    · have hrest : (step s .download).toDownload = rest := by
        rw [hstep, State.tryDownloadNext_eq]
      obtain ⟨j, hsch, hj⟩ := ih (hrest ▸ hdue.resolve_left hid) (hs.nextInvs ▸ hfirst) hrest
      exact ⟨j + 1, hsch, hs.trans hj⟩

/-- **What is due is done**: a micro-block being requested, and not received meanwhile, is
requested by the synchronizer's own steps, whichever owners are picked. -/
theorem Requesting.completes {events : List (Event Channel)} {totalSig : MicroBlockSignature}
    (h : Requesting events totalSig) (hnew : totalSig ∉ events.filterMap Event.received)
    (picks : ℕ → ℕ) :
    ∃ j n k, Requested (events ++ (List.replicate j .download ++
      (List.range k).map fun i => .task n (picks i))) totalSig := by
  obtain ⟨owner, howns, hopen, hdue⟩ := h
  have ht := tracks_run events
  have hscheduled : ∃ j, (EventRun.after step (run events) (List.replicate j .download)).Scheduled
      owner totalSig ∧
        SameCaches (run events) (EventRun.after step (run events) (List.replicate j .download)) := by
    rcases hdue with hsch | ⟨prevSig, hin, first, hfirst, rfl⟩
    · exact ⟨0, hsch, rfl, rfl, rfl, rfl, rfl⟩
    · exact downloads_schedule hin ((ht.nextInvs prevSig).trans hfirst) owner
  obtain ⟨j, ⟨t, hmem, rfl, hattempts, hexclude⟩, hs⟩ := hscheduled
  obtain ⟨n, hn⟩ := List.mem_iff_getElem?.mp hmem
  have ht' := ht.of_sameCaches hs
  obtain ⟨k, hk⟩ := scheduled_asks hn hattempts ((ht'.owners _ _).mpr howns)
    (by unfold State.isOpen; simpa [ht'.closed] using hopen) hexclude
    (by rwa [ht'.received]) picks
  refine ⟨j, n, k, requested_iff.mpr ?_⟩
  unfold run
  rw [EventRun.after_append, EventRun.after_append]
  exact hk

end History

/-! ## 8. A fork

Two micro-blocks are announced on top of the same block. The first one announced is
requested, and requested again when the second is announced; the second never is. -/

section Fork

local instance forkCrypto : Crypto where
  chainId := 84
  fastHash := id
  secureHash := id
  verify := fun _ _ _ => true
  isWeakPublicKey := fun _ => false

def inv (total prev : Byte) : MicroBlockInv := ⟨[1], [total], [prev], [1]⟩

def fork : List (Event ℕ) :=
  [.lastBlockId [0], .download, .microblockInv 1 (inv 1 0), .task 0 0, .microblockInv 2 (inv 2 0),
    .task 1 0]

/-- The run as it goes: nothing is asked of the second channel, and all that is scheduled
is for the first micro-block. -/
theorem fork_run :
    announcements fork = [(1, inv 1 0), (2, inv 2 0)] ∧ currentId fork = some [0] ∧
      (run fork).requests = [(1, [1]), (1, [1])] ∧ (run fork).downstream = [] ∧
      (run fork).toDownload = [] ∧
      (run fork).tasks.map (·.mbInv.totalBlockSig) = [[1], [1]] := by
  decide +kernel

/-- The announcement of the second micro-block is valid, its channel stays open, its block
is the last one and nothing went downstream; it is not requested, and nothing is due. -/
theorem fork_starves : ¬ ∀ (events : List (Event ℕ)) (ch : ℕ) (mbInv : MicroBlockInv),
    (ch, mbInv) ∈ announcements events → .closed ch ∉ events →
      currentId events = some mbInv.prevBlockSig →
      (∀ d ∈ (run events).downstream, d.2.microBlock.totalResBlockSig ≠ mbInv.totalBlockSig) →
      Requested events mbInv.totalBlockSig ∨ Requesting events mbInv.totalBlockSig := by
  intro h
  obtain ⟨hann, hlast, hreq, hdown, hdue, htasks⟩ := fork_run
  rcases h fork 2 (inv 2 0) (by rw [hann]; simp) (by simp [fork]) hlast (by rw [hdown]; simp) with
    ⟨owner, -, hin⟩ | ⟨owner, -, -, ⟨t, ht, hsig, -⟩ | ⟨prevSig, hin, -⟩⟩
  · rw [hreq] at hin
    simp [inv] at hin
  · have hmem := List.mem_map_of_mem (f := (·.mbInv.totalBlockSig)) ht
    rw [htasks, hsig] at hmem
    simp [inv] at hmem
  · rw [hdue] at hin
    cases hin

/-- The first one is requested. -/
theorem fork_first_requested :
    Requested fork (inv 1 0).totalBlockSig ∨ Requesting fork (inv 1 0).totalBlockSig := by
  have hann : (1, inv 1 0) ∈ announcements fork := by
    rw [fork_run.1]
    exact List.mem_cons_self
  have hfirst : firstInv fork (inv 1 0).prevBlockSig = some (inv 1 0) := by
    unfold firstInv
    rw [fork_run.1]
    decide
  refine requested_or_requesting hann (by simp [fork]) fork_run.2.1 hfirst rfl ?_
  intro past e later h hsig
  have he : e ∈ fork := h ▸ by simp
  simp only [fork, List.mem_cons, List.not_mem_nil, or_false] at he
  rcases he with rfl | rfl | rfl | rfl | rfl | rfl <;> cases hsig

end Fork

end MicroBlockSynchronizer

end WavesNode
