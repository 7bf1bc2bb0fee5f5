import IrohRooms.Lib.Journal
import IrohRooms.Sync.Sends

/-!
# The journal of a call

What a call of the engine does to its store, to the tables it keeps there, to its buckets and its park, and whom it
tells, in the order it is done (`Deed`). The functions follow those of the engine, one each, and read the states these
pass through; writes of events may fail here. Every call is a story of a few kinds of moves (`Move`), so what each of
these keeps is kept by every run (`step_story`).
-/

namespace IrohRooms

variable {env : Env} {sealing : Sealing} {room : RoomId}

/-- Something a call does. A write, a report and a push list the parents of the event that the fold has accepted by
then. -/
inductive Deed (env : Env) (room : RoomId)
  | ticked
  /-- The process ends, and a new one opens the engine. -/
  | reopened
  | buckets (tokens : OrdMap IdentityKey Nat)
  | savedTokens
  | granted (author : IdentityKey)
  | parked (id : EventId) (p : Parked env room)
  | savedParked (id : EventId)
  | unparked (id : EventId)
  | deletedParked (id : EventId)
  | wrote (v : ValidatedEvent env room) (outcome : InsertOutcome) (known : List EventId)
  | failed (v : ValidatedEvent env room)
  /-- Handed to `take_ingested`. -/
  | reported (v : ValidatedEvent env room) (known : List EventId)
  | fannedOut (v : ValidatedEvent env room) (peer : PeerId) (known : List EventId)
  | queued (v : ValidatedEvent env room) (origin : Option PeerId)
  | dequeued (id : EventId)
  /-- A `store_degraded` decision. -/
  | degraded (id : EventId)

/-- The deed is about an event, its write and who is told of it, not about the buckets or the park. -/
def Deed.aboutEvents : Deed env room → Bool
  | .wrote .. | .failed _ | .reported .. | .fannedOut .. | .queued .. | .dequeued _ | .degraded _ => true
  | _ => false

/-- The sender of an event that waits for a second write. -/
def queuedFrom (past : List (Deed env room)) (id : EventId) : Option PeerId :=
  past.foldl (fun found d =>
    match d with
    | .queued v origin => if v.eventId = id then origin else found
    | _ => found) none

namespace SyncEngine

open Journal

variable (origin : Option PeerId) (origins : EventId → Option PeerId) (e : SyncEngine env sealing room)

/-! ### Persistence -/

def knownParents (v : ValidatedEvent env room) : List EventId := v.event.prevEvents.filter e.fold.isAccepted

/-- A fresh row is reported, and pushed to everybody but the sender. -/
def outcomeDeeds (outcome : InsertOutcome) (v : ValidatedEvent env room) : List (Deed env room) :=
  match outcome with
  | .duplicate => []
  | .inserted => .reported v (e.knownParents v) ::
    (e.peers.toList.filter fun peer => some peer != origin).map fun peer => .fannedOut v peer (e.knownParents v)

def enqueueDeeds (v : ValidatedEvent env room) : List (Deed env room) :=
  if e.storeRetry.contains v.eventId then []
  else if e.storeRetry.entries.length ≥ e.config.maxStoreRetryTotal then [.degraded v.eventId]
  else [.queued v origin]

def landedDeeds (landed : ValidatedEvent env room × InsertOutcome) : List (Deed env room) :=
  .dequeued landed.1.eventId :: e.outcomeDeeds origin landed.2 landed.1

def wroteDeed (landed : ValidatedEvent env room × InsertOutcome) : Deed env room :=
  .wrote landed.1 landed.2 (e.knownParents landed.1)

def flushDeeds : List (Deed env room) :=
  if e.pendingBatch = [] then []
  else
    let batch := e.pendingBatch
    let r := e.store.insertAllOutcomes batch
    let cleared : SyncEngine env sealing room := { e with pendingBatch := [], store := r.1 }
    match r.2 with
    | some outcomes =>
      (batch.zip outcomes).map e.wroteDeed ++ told (landedDeeds origin) applyLanded (batch.zip outcomes) cleared
    | none => batch.map .failed ++ told (enqueueDeeds origin) enqueueStoreRetry batch cleared

def storeDeeds (v : ValidatedEvent env room) : List (Deed env room) :=
  let r := e.store.insert v
  let written : SyncEngine env sealing room := { e with store := r.1 }
  match r.2 with
  | some outcome => e.wroteDeed (v, outcome) :: written.landedDeeds origin (v, outcome)
  | none => .failed v :: written.enqueueDeeds origin v

def retryLoopDeeds : List EventId → SyncEngine env sealing room → List (Deed env room)
  | [], _ => []
  | id :: rest, e =>
    match e.storeRetry.get? id with
    | none => retryLoopDeeds rest e
    | some r =>
      let w := e.store.insert r.event
      match w.2 with
      | some outcome =>
        let dequeued : SyncEngine env sealing room := { e with store := w.1, storeRetry := e.storeRetry.erase id }
        e.wroteDeed (r.event, outcome) :: .dequeued id :: dequeued.outcomeDeeds (origins id) outcome r.event ++
          retryLoopDeeds rest (dequeued.applyInsertOutcome outcome r.event)
      | none => .failed r.event ::
        if r.attempts + 1 ≥ e.config.storeRetryAttempts then [.dequeued id, .degraded id] else []

def retryStoreDeeds : List (Deed env room) := retryLoopDeeds origins e.retryOrder e

/-! ### The park -/

/-- A token is granted once its loss is saved. -/
def takeDeeds (author : IdentityKey) : List (Deed env room) :=
  .buckets (e.takeBackfillToken author).1.tokens ::
    if (e.takeBackfillToken author).2 then [.savedTokens, .granted author] else []

def chaseDeeds (author : IdentityKey) (missing : List EventId) : List (Deed env room) :=
  if missing.filter e.worthBackfilling = [] then [] else e.takeDeeds author

def evictDeeds (id : EventId) : List (Deed env room) := [.unparked id, .deletedParked id]

def enforceTotalDeeds : Nat → SyncEngine env sealing room → List (Deed env room)
  | 0, _ => []
  | fuel + 1, e =>
    if e.park.entries.length ≥ e.config.maxParkedTotal then
      match e.oldestParked none with
      | some id => evictDeeds id ++ enforceTotalDeeds fuel (e.evictParked id)
      | none => []
    else []

def enforceAuthorDeeds (author : IdentityKey) : List (Deed env room) :=
  if (e.park.values.filter fun p => p.author == author).length ≥ e.config.maxParkedPerAuthor then
    match e.oldestParked (some author) with
    | some id => evictDeeds id
    | none => []
  else []

def parkFrameDeeds (v : ValidatedEvent env room) (depth : Nat) (missing : List EventId) : List (Deed env room) :=
  if e.park.contains v.eventId then []
  else
    let author := v.event.senderId
    let total := enforceTotal (e.park.entries.length + 1) e
    let capped := total.enforceAuthor author
    enforceTotalDeeds (e.park.entries.length + 1) e ++ total.enforceAuthorDeeds author ++
      [.parked v.eventId ⟨v, author, capped.parkSeq + 1, depth, OrdSet.ofList missing⟩, .savedParked v.eventId]

def onBufferedDeeds (v : ValidatedEvent env room) (missing : List EventId) : List (Deed env room) :=
  let depth := (e.backfillDepth.get? v.eventId).getD 0
  if depth > e.config.maxBackfillDepth then []
  else if !e.signerPlausible v then []
  else
    let parked := e.parkFrame v depth missing
    e.parkFrameDeeds v depth missing ++
      match parked.park.get? v.eventId with
      | none => []
      | some p => parked.chaseDeeds p.author missing

/-- A promoted frame has no sender. -/
def wakeOneDeeds (st : SyncEngine env sealing room × Bool) (id : EventId) : List (Deed env room) :=
  match st.1.park.get? id with
  | none => []
  | some p =>
    let folded := st.1.ingestFold p.event
    match folded.fold.outcome p.event.eventId with
    | .accepted .. => evictDeeds id ++ (folded.evictParked id).storeDeeds none p.event
    | .rejected .. => evictDeeds id
    | .buffered .. => []

def wakeLoopDeeds : Nat → SyncEngine env sealing room → List (Deed env room)
  | 0, _ => []
  | fuel + 1, e =>
    let r := e.park.keys.foldl wakeOne (e, false)
    told wakeOneDeeds wakeOne e.park.keys (e, false) ++ if r.2 then wakeLoopDeeds fuel r.1 else []

def wakeParkDeeds : List (Deed env room) := wakeLoopDeeds (e.park.entries.length + 1) e

def retryParkDeeds : List (Deed env room) :=
  let woken := e.wakePark
  e.wakeParkDeeds ++ told (fun e p => e.chaseDeeds p.1 p.2.2) (fun e p => e.chase p.1 p.2.1 p.2.2)
    (woken.park.values.map fun p => (p.author, p.depth, p.missing.toList)) woken

def retryRestoredOneDeeds (id : EventId) : List (Deed env room) :=
  let cleared : SyncEngine env sealing room := { e with restoredBackfill := OrdMap.erase e.restoredBackfill id }
  match cleared.park.get? id with
  | none => []
  | some p => cleared.chaseDeeds p.author p.missing.toList

def retryRestoredDeeds : List (Deed env room) :=
  if e.restoredBackfill.toList = [] ∨ e.peers.toList = [] then []
  else told retryRestoredOneDeeds retryRestoredOne e.restoredBackfill.toList e

/-! ### Delivery -/

def deliverDeeds (v : ValidatedEvent env room) : List (Deed env room) :=
  if e.wouldBuffer v && !e.signerPlausible v then []
  else
    let folded := e.ingestFold v
    match folded.fold.outcome v.eventId with
    | .accepted .. =>
      let queued : SyncEngine env sealing room := { folded with
        backfillDepth := folded.backfillDepth.erase v.eventId
        pendingBatch := folded.pendingBatch ++ [v] }
      if queued.pendingBatch.length ≥ queued.config.storeInsertBatchSize then queued.flushDeeds origin else []
    | .buffered _ missing => folded.flushDeeds origin ++ folded.flushStoreBatch.onBufferedDeeds v missing
    | .rejected .. => flushDeeds origin
        ({ folded with backfillDepth := folded.backfillDepth.erase v.eventId } : SyncEngine env sealing room)

def deliverFrameDeeds (f : Frame) : List (Deed env room) :=
  if e.dedupCache.contains f.eventId then []
  else match validate env ⟨room, none⟩ f.eventId f.event with
    | .ok v => e.deliverDeeds origin v
    | .error _ => []

def finalizeDeeds : List (Deed env room) :=
  e.flushDeeds origin ++ e.flushStoreBatch.wakeParkDeeds ++ e.flushStoreBatch.wakePark.flushDeeds origin

/-! ### Calls -/

/-- One checkpoint for all buckets, if one of them changed. -/
def refillDeeds : List (Deed env room) :=
  .buckets e.refillTokens.tokens :: if e.refillTokens.tokens = e.tokens then [] else [.savedTokens]

def onTickDeeds : List (Deed env room) :=
  let retried := e.refillTokens.expireSuspectTip
  .ticked :: e.refillDeeds ++ retried.retryStoreDeeds origins ++ retried.retryStore.retryParkDeeds ++
    retried.retryStore.retryPark.retryRestoredDeeds

def publishDeeds (f : Frame) : List (Deed env room) :=
  match e.publish f, validate env ⟨room, none⟩ f.eventId f.event with
  | .ok _, .ok v => e.deliverDeeds none v ++ (e.deliver v).finalizeDeeds none
  | _, _ => []

/-- Only delivered frames do something before the batch is committed. -/
def onMessageDeeds (sender : PeerId) (msg : RoomMessage) : List (Deed env room) :=
  if msg.roomId ≠ room then []
  else told (deliverFrameDeeds (some sender)) deliverFrame msg.body.toSync.frames e ++
    (e.dispatched msg.body.toSync).finalizeDeeds (some sender)

/-- What a call does, after what was done before. -/
def deeds (past : List (Deed env room)) : Call → List (Deed env room)
  | .ingestFrame sender f => e.deliverFrameDeeds (some sender) f ++ (e.deliverFrame f).finalizeDeeds (some sender)
  | .publish f => e.publishDeeds f
  | .onConnect peer => retryRestoredDeeds ({ e with peers := e.peers.add peer } : SyncEngine env sealing room)
  | .onDisconnect _ => []
  | .onMessage sender msg => e.onMessageDeeds sender msg
  | .onTick => e.onTickDeeds (queuedFrom past)
  | .insertRoomKey _ _ => []

/-! ### Moves -/

/-- Nothing the journal follows changed. -/
structure Silent (e f : SyncEngine env sealing room) : Prop where
  config : f.config = e.config
  store : f.store = e.store
  storeRetry : f.storeRetry = e.storeRetry
  tokens : f.tokens = e.tokens
  park : f.park = e.park

/-- What calls are made of. -/
inductive Move : SyncEngine env sealing room → List (Deed env room) → SyncEngine env sealing room → Prop
  | silent {e f : SyncEngine env sealing room} : Silent e f → Move e [] f
  | refill (e : SyncEngine env sealing room) : Move e (.ticked :: e.refillDeeds) e.refillTokens
  | take (e : SyncEngine env sealing room) (author : IdentityKey) :
      Move e (e.takeDeeds author) (e.takeBackfillToken author).1
  | evict (e : SyncEngine env sealing room) (id : EventId) : Move e (evictDeeds id) (e.evictParked id)
  | park (e : SyncEngine env sealing room) (v : ValidatedEvent env room) (depth : Nat) (missing : List EventId) :
      Move e (e.parkFrameDeeds v depth missing) (e.parkFrame v depth missing)
  | flush (e : SyncEngine env sealing room) (origin : Option PeerId) : Move e (e.flushDeeds origin) e.flushStoreBatch
  | store (e : SyncEngine env sealing room) (origin : Option PeerId) (v : ValidatedEvent env room) :
      Move e (e.storeDeeds origin v) (e.storeAndFanout v)
  | retry (e : SyncEngine env sealing room) (origins : EventId → Option PeerId) :
      Move e (e.retryStoreDeeds origins) e.retryStore

variable {e} {f : SyncEngine env sealing room}

theorem ingestFold_silent (v : ValidatedEvent env room) : Silent e (e.ingestFold v) := by
  unfold ingestFold refreshMembershipProjectionIfNeeded
  dsimp only
  split_ifs <;> exact ⟨rfl, rfl, rfl, rfl, rfl⟩

theorem chase_story (author : IdentityKey) (depth : Nat) (missing : List EventId) :
    Story Move e (e.chaseDeeds author missing) (e.chase author depth missing) := by
  unfold chaseDeeds chase
  dsimp only
  by_cases hnone : missing.filter e.worthBackfilling = []
  · rw [if_pos hnone, if_pos hnone]
    exact .refl e
  · rw [if_neg hnone, if_neg hnone]
    have htake : Story Move e (e.takeDeeds author) (e.takeBackfillToken author).1 := .single (.take e author)
    split_ifs
    · exact htake.before (.silent ⟨rfl, rfl, rfl, rfl, rfl⟩)
    · exact htake

theorem onBuffered_story (v : ValidatedEvent env room) (missing : List EventId) :
    Story Move e (e.onBufferedDeeds v missing) (e.onBuffered v missing) := by
  unfold onBufferedDeeds onBuffered
  dsimp only
  split_ifs
  · exact .refl e
  · exact .refl e
  · refine (Story.single (Move.park e v _ missing)).trans ?_
    cases (e.parkFrame v ((e.backfillDepth.get? v.eventId).getD 0) missing).park.get? v.eventId with
    | none => exact .refl _
    | some p => exact chase_story ..

theorem wakeOne_story (st : SyncEngine env sealing room × Bool) (id : EventId) :
    Story Move st.1 (wakeOneDeeds st id) (wakeOne st id).1 := by
  unfold wakeOneDeeds wakeOne
  cases hp : st.1.park.get? id with
  | none => exact .refl _
  | some p =>
    have hfold : Move st.1 [] (st.1.ingestFold p.event) := .silent (ingestFold_silent p.event)
    have hevict : Story Move st.1 (evictDeeds id) ((st.1.ingestFold p.event).evictParked id) :=
      .after hfold (.single (.evict _ id))
    dsimp only
    cases (st.1.ingestFold p.event).fold.outcome p.event.eventId with
    | accepted => exact hevict.trans (.single (.store _ none p.event))
    | rejected => exact hevict
    | buffered => exact .single hfold

theorem wakeLoop_story (fuel : Nat) (e : SyncEngine env sealing room) :
    Story Move e (wakeLoopDeeds fuel e) (wakeParkLoop fuel e) := by
  induction fuel generalizing e with
  | zero => exact .refl e
  | succ fuel ih =>
    unfold wakeLoopDeeds wakeParkLoop
    dsimp only
    refine (Story.foldl Prod.fst wakeOne_story e.park.keys (e, false)).trans ?_
    split_ifs
    · exact ih _
    · exact .refl _

theorem wakePark_story : Story Move e e.wakeParkDeeds e.wakePark := wakeLoop_story _ e

theorem retryPark_story : Story Move e e.retryParkDeeds e.retryPark :=
  wakePark_story.trans (.foldl id (fun (_ : SyncEngine env sealing room) (p : IdentityKey × Nat × List EventId) =>
    chase_story p.1 p.2.1 p.2.2) _ _)

theorem retryRestoredOne_story (e : SyncEngine env sealing room) (id : EventId) :
    Story Move e (e.retryRestoredOneDeeds id) (e.retryRestoredOne id) := by
  unfold retryRestoredOneDeeds retryRestoredOne
  dsimp only
  have hclear : Move e [] ({ e with restoredBackfill := OrdMap.erase e.restoredBackfill id } :
      SyncEngine env sealing room) := .silent ⟨rfl, rfl, rfl, rfl, rfl⟩
  refine .after hclear ?_
  cases e.park.get? id with
  | none => exact .refl _
  | some p => exact chase_story ..

theorem retryRestoredPark_story : Story Move e e.retryRestoredDeeds e.retryRestoredPark := by
  unfold retryRestoredDeeds retryRestoredPark
  split_ifs
  · exact .refl e
  · exact .foldl id retryRestoredOne_story _ e

/-! ### What a move concerns -/

/-- The buckets and the park are as they were. -/
structure Aside (e f : SyncEngine env sealing room) : Prop where
  config : f.config = e.config
  tokens : f.tokens = e.tokens
  park : f.park = e.park

theorem Aside.trans {g : SyncEngine env sealing room} (h : Aside e f) (h' : Aside f g) : Aside e g :=
  ⟨h'.config.trans h.config, h'.tokens.trans h.tokens, h'.park.trans h.park⟩

theorem Aside.after {g : SyncEngine env sealing room} (h : Aside f g) (hconfig : f.config = e.config)
    (htokens : f.tokens = e.tokens) (hpark : f.park = e.park) : Aside e g :=
  Aside.trans ⟨hconfig, htokens, hpark⟩ h

theorem foldl_aside {α : Type} {step : SyncEngine env sealing room → α → SyncEngine env sealing room}
    (hstep : ∀ e a, Aside e (step e a)) (as : List α) (e : SyncEngine env sealing room) :
    Aside e (as.foldl step e) :=
  List.foldlRecOn as step (motive := fun f : SyncEngine env sealing room => Aside e f) ⟨rfl, rfl, rfl⟩
    fun f h a _ => h.trans (hstep f a)

theorem applyInsertOutcome_aside (outcome : InsertOutcome) (v : ValidatedEvent env room) :
    Aside e (e.applyInsertOutcome outcome v) := by
  cases outcome <;> exact ⟨rfl, rfl, rfl⟩

theorem applyLanded_aside (e : SyncEngine env sealing room) (landed : ValidatedEvent env room × InsertOutcome) :
    Aside e (e.applyLanded landed) :=
  (applyInsertOutcome_aside landed.2 landed.1).after rfl rfl rfl

theorem enqueueStoreRetry_aside (e : SyncEngine env sealing room) (v : ValidatedEvent env room) :
    Aside e (e.enqueueStoreRetry v) := by
  unfold enqueueStoreRetry
  split_ifs <;> exact ⟨rfl, rfl, rfl⟩

theorem flushStoreBatch_aside : Aside e e.flushStoreBatch := by
  unfold flushStoreBatch
  split_ifs
  · exact ⟨rfl, rfl, rfl⟩
  · dsimp only
    split
    · exact (foldl_aside applyLanded_aside _ _).after rfl rfl rfl
    · exact (foldl_aside enqueueStoreRetry_aside _ _).after rfl rfl rfl

theorem storeAndFanout_aside (v : ValidatedEvent env room) : Aside e (e.storeAndFanout v) := by
  unfold storeAndFanout
  dsimp only
  split
  · exact (applyLanded_aside _ _).after rfl rfl rfl
  · exact (enqueueStoreRetry_aside _ v).after rfl rfl rfl

theorem retryStoreLoop_aside (ids : List EventId) (e : SyncEngine env sealing room) :
    Aside e (retryStoreLoop ids e) := by
  induction ids generalizing e with
  | nil => exact ⟨rfl, rfl, rfl⟩
  | cons id ids ih =>
    unfold retryStoreLoop
    split
    · exact ih e
    · rename_i r _
      dsimp only
      split
      · rename_i outcome _
        refine (ih _).after ?_ ?_ ?_
        · exact (applyInsertOutcome_aside outcome r.event).config
        · exact (applyInsertOutcome_aside outcome r.event).tokens
        · exact (applyInsertOutcome_aside outcome r.event).park
      · unfold failRetry
        split_ifs <;> exact ⟨rfl, rfl, rfl⟩

theorem aboutEvents_outcomeDeeds (origin : Option PeerId) (outcome : InsertOutcome) (v : ValidatedEvent env room) :
    ∀ d ∈ e.outcomeDeeds origin outcome v, d.aboutEvents = true := by
  intro d hd
  cases outcome with
  | duplicate => cases hd
  | inserted =>
    rcases List.mem_cons.mp hd with rfl | hpeer
    · rfl
    · obtain ⟨peer, -, rfl⟩ := List.mem_map.mp hpeer
      rfl

theorem aboutEvents_landedDeeds (origin : Option PeerId) (e : SyncEngine env sealing room)
    (landed : ValidatedEvent env room × InsertOutcome) : ∀ d ∈ e.landedDeeds origin landed, d.aboutEvents = true := by
  intro d hd
  rcases List.mem_cons.mp hd with rfl | hd
  · rfl
  · exact aboutEvents_outcomeDeeds origin landed.2 landed.1 d hd

theorem aboutEvents_enqueueDeeds (origin : Option PeerId) (e : SyncEngine env sealing room)
    (v : ValidatedEvent env room) : ∀ d ∈ e.enqueueDeeds origin v, d.aboutEvents = true := by
  intro d hd
  unfold enqueueDeeds at hd
  split_ifs at hd
  · cases hd
  · rw [List.mem_singleton.mp hd]
    rfl
  · rw [List.mem_singleton.mp hd]
    rfl

theorem aboutEvents_flushDeeds (origin : Option PeerId) : ∀ d ∈ e.flushDeeds origin, d.aboutEvents = true := by
  intro d hd
  unfold flushDeeds at hd
  split_ifs at hd
  · cases hd
  · dsimp only at hd
    split at hd
    · rcases List.mem_append.mp hd with hwrote | hlanded
      · obtain ⟨landed, -, rfl⟩ := List.mem_map.mp hwrote
        rfl
      · exact forall_told (aboutEvents_landedDeeds origin) _ _ d hlanded
    · rcases List.mem_append.mp hd with hfailed | hqueued
      · obtain ⟨v, -, rfl⟩ := List.mem_map.mp hfailed
        rfl
      · exact forall_told (aboutEvents_enqueueDeeds origin) _ _ d hqueued

theorem aboutEvents_storeDeeds (origin : Option PeerId) (v : ValidatedEvent env room) :
    ∀ d ∈ e.storeDeeds origin v, d.aboutEvents = true := by
  intro d hd
  unfold storeDeeds at hd
  dsimp only at hd
  split at hd
  · rcases List.mem_cons.mp hd with rfl | hd
    · rfl
    · exact aboutEvents_landedDeeds origin _ _ d hd
  · rcases List.mem_cons.mp hd with rfl | hd
    · rfl
    · exact aboutEvents_enqueueDeeds origin _ v d hd

theorem aboutEvents_retryLoopDeeds (origins : EventId → Option PeerId) (ids : List EventId)
    (e : SyncEngine env sealing room) : ∀ d ∈ retryLoopDeeds origins ids e, d.aboutEvents = true := by
  induction ids generalizing e with
  | nil => exact fun _ hd => absurd hd List.not_mem_nil
  | cons id ids ih =>
    intro d hd
    unfold retryLoopDeeds at hd
    split at hd
    · exact ih e d hd
    · dsimp only at hd
      split at hd
      · simp only [List.cons_append, List.mem_cons, List.mem_append] at hd
        rcases hd with rfl | rfl | hd | hd
        · rfl
        · rfl
        · exact aboutEvents_outcomeDeeds _ _ _ d hd
        · exact ih _ d hd
      · rcases List.mem_cons.mp hd with rfl | hd
        · rfl
        · split_ifs at hd
          · simp only [List.mem_cons, List.not_mem_nil, or_false] at hd
            rcases hd with rfl | rfl <;> rfl
          · cases hd

/-- The store and the queue are as they were. -/
structure Unwritten (e f : SyncEngine env sealing room) : Prop where
  config : f.config = e.config
  store : f.store = e.store
  storeRetry : f.storeRetry = e.storeRetry

theorem Unwritten.trans {g : SyncEngine env sealing room} (h : Unwritten e f) (h' : Unwritten f g) : Unwritten e g :=
  ⟨h'.config.trans h.config, h'.store.trans h.store, h'.storeRetry.trans h.storeRetry⟩

theorem enforceTotal_unwritten (fuel : Nat) (e : SyncEngine env sealing room) :
    Unwritten e (enforceTotal fuel e) ∧ ∀ d ∈ enforceTotalDeeds fuel e, d.aboutEvents = false := by
  induction fuel generalizing e with
  | zero => exact ⟨⟨rfl, rfl, rfl⟩, fun _ hd => absurd hd List.not_mem_nil⟩
  | succ fuel ih =>
    unfold enforceTotal enforceTotalDeeds
    split_ifs
    · cases e.oldestParked none with
      | none => exact ⟨⟨rfl, rfl, rfl⟩, fun _ hd => absurd hd List.not_mem_nil⟩
      | some id =>
        obtain ⟨hrest, hdeeds⟩ := ih (e.evictParked id)
        refine ⟨⟨hrest.config, hrest.store, hrest.storeRetry⟩, fun d hd => ?_⟩
        simp only [evictDeeds, List.cons_append, List.nil_append, List.mem_cons] at hd
        rcases hd with rfl | rfl | hd
        · rfl
        · rfl
        · exact hdeeds d hd
    · exact ⟨⟨rfl, rfl, rfl⟩, fun _ hd => absurd hd List.not_mem_nil⟩

theorem enforceAuthor_unwritten (e : SyncEngine env sealing room) (author : IdentityKey) :
    Unwritten e (e.enforceAuthor author) ∧ ∀ d ∈ e.enforceAuthorDeeds author, d.aboutEvents = false := by
  unfold enforceAuthor enforceAuthorDeeds
  split_ifs
  · cases e.oldestParked (some author) with
    | none => exact ⟨⟨rfl, rfl, rfl⟩, fun _ hd => absurd hd List.not_mem_nil⟩
    | some id => exact ⟨⟨rfl, rfl, rfl⟩, by simp [evictDeeds, Deed.aboutEvents]⟩
  · exact ⟨⟨rfl, rfl, rfl⟩, fun _ hd => absurd hd List.not_mem_nil⟩

theorem parkFrame_unwritten (v : ValidatedEvent env room) (depth : Nat) (missing : List EventId) :
    Unwritten e (e.parkFrame v depth missing) ∧ ∀ d ∈ e.parkFrameDeeds v depth missing, d.aboutEvents = false := by
  unfold parkFrame parkFrameDeeds
  split_ifs
  · exact ⟨⟨rfl, rfl, rfl⟩, fun _ hd => absurd hd List.not_mem_nil⟩
  · obtain ⟨htotal, htotalDeeds⟩ := enforceTotal_unwritten (e.park.entries.length + 1) e
    obtain ⟨hauthor, hauthorDeeds⟩ := enforceAuthor_unwritten (enforceTotal (e.park.entries.length + 1) e)
      v.event.senderId
    have hcapped := htotal.trans hauthor
    refine ⟨⟨hcapped.config, hcapped.store, hcapped.storeRetry⟩, fun d hd => ?_⟩
    simp only [List.mem_append, List.mem_cons, List.not_mem_nil, or_false] at hd
    rcases hd with (hd | hd) | rfl | rfl
    · exact htotalDeeds d hd
    · exact hauthorDeeds d hd
    · rfl
    · rfl

theorem refillDeeds_unwritten : ∀ d ∈ .ticked :: e.refillDeeds, d.aboutEvents = false := by
  intro d hd
  unfold refillDeeds at hd
  split_ifs at hd <;> simp only [List.mem_cons, List.not_mem_nil, or_false] at hd
  · rcases hd with rfl | rfl <;> rfl
  · rcases hd with rfl | rfl | rfl <;> rfl

theorem takeDeeds_unwritten (author : IdentityKey) : ∀ d ∈ e.takeDeeds author, d.aboutEvents = false := by
  intro d hd
  unfold takeDeeds at hd
  split_ifs at hd <;> simp only [List.mem_cons, List.not_mem_nil, or_false] at hd
  · rcases hd with rfl | rfl | rfl <;> rfl
  · rw [hd]
    rfl

theorem chaseDeeds_unwritten (author : IdentityKey) (missing : List EventId) :
    ∀ d ∈ e.chaseDeeds author missing, d.aboutEvents = false := by
  intro d hd
  unfold chaseDeeds at hd
  split_ifs at hd
  · cases hd
  · exact takeDeeds_unwritten author d hd

theorem onBufferedDeeds_unwritten (v : ValidatedEvent env room) (missing : List EventId) :
    ∀ d ∈ e.onBufferedDeeds v missing, d.aboutEvents = false := by
  intro d hd
  unfold onBufferedDeeds at hd
  dsimp only at hd
  split_ifs at hd
  · cases hd
  · cases hd
  · rcases List.mem_append.mp hd with hd | hd
    · exact (parkFrame_unwritten v _ missing).2 d hd
    · split at hd
      · cases hd
      · exact chaseDeeds_unwritten _ missing d hd

theorem retryRestoredDeeds_unwritten : ∀ d ∈ e.retryRestoredDeeds, d.aboutEvents = false := by
  have hone : ∀ (e : SyncEngine env sealing room) (id : EventId), ∀ d ∈ e.retryRestoredOneDeeds id,
      d.aboutEvents = false := by
    intro e id d hd
    unfold retryRestoredOneDeeds at hd
    dsimp only at hd
    split at hd
    · cases hd
    · exact chaseDeeds_unwritten _ _ d hd
  unfold retryRestoredDeeds
  split_ifs
  · exact fun _ hd => absurd hd List.not_mem_nil
  · exact forall_told hone _ e

/-- A move concerns the buckets and the park, or it writes. -/
theorem Move.unwritten_or {es : List (Deed env room)} (h : Move e es f) :
    (Unwritten e f ∧ ∀ d ∈ es, d.aboutEvents = false) ∨
      (Aside e f ∧ (∀ d ∈ es, d.aboutEvents = true) ∧
        ((∃ origin, es = e.flushDeeds origin ∧ f = e.flushStoreBatch) ∨
          (∃ origin v, es = e.storeDeeds origin v ∧ f = e.storeAndFanout v) ∨
          ∃ origins, es = e.retryStoreDeeds origins ∧ f = e.retryStore)) := by
  cases h with
  | silent hsilent =>
    exact Or.inl ⟨⟨hsilent.config, hsilent.store, hsilent.storeRetry⟩, fun _ hd => absurd hd List.not_mem_nil⟩
  | refill => exact Or.inl ⟨⟨rfl, rfl, rfl⟩, refillDeeds_unwritten⟩
  | take author => exact Or.inl ⟨⟨rfl, rfl, rfl⟩, takeDeeds_unwritten author⟩
  | evict id => exact Or.inl ⟨⟨rfl, rfl, rfl⟩, by simp [evictDeeds, Deed.aboutEvents]⟩
  | park v depth missing => exact Or.inl (parkFrame_unwritten v depth missing)
  | flush origin => exact Or.inr ⟨flushStoreBatch_aside, aboutEvents_flushDeeds origin, Or.inl ⟨origin, rfl, rfl⟩⟩
  | store origin v =>
    exact Or.inr ⟨storeAndFanout_aside v, aboutEvents_storeDeeds origin v, Or.inr (Or.inl ⟨origin, v, rfl, rfl⟩)⟩
  | retry origins =>
    exact Or.inr ⟨retryStoreLoop_aside _ e, aboutEvents_retryLoopDeeds origins _ e, Or.inr (Or.inr ⟨origins, rfl, rfl⟩)⟩

/-! ### Calls are stories -/

theorem deliver_story (origin : Option PeerId) (v : ValidatedEvent env room) :
    Story Move e (e.deliverDeeds origin v) (e.deliver v) := by
  unfold deliverDeeds deliver
  by_cases hdoubts : (e.wouldBuffer v && !e.signerPlausible v) = true
  · rw [if_pos hdoubts, if_pos hdoubts]
    exact .refl e
  · rw [if_neg hdoubts, if_neg hdoubts]
    have hfold : Move e [] (e.ingestFold v) := .silent (ingestFold_silent v)
    dsimp only
    cases (e.ingestFold v).fold.outcome v.eventId with
    | accepted =>
      have hqueue : Story Move e [] ({ e.ingestFold v with
          backfillDepth := (e.ingestFold v).backfillDepth.erase v.eventId
          pendingBatch := (e.ingestFold v).pendingBatch ++ [v] } : SyncEngine env sealing room) :=
        (Story.single hfold).before (.silent ⟨rfl, rfl, rfl, rfl, rfl⟩)
      dsimp only at hqueue ⊢
      split_ifs
      · exact hqueue.trans (.single (.flush _ origin))
      · exact hqueue
    | buffered _ missing =>
      exact .after hfold ((Story.single (Move.flush _ origin)).trans (onBuffered_story v missing))
    | rejected =>
      have hdrop : Story Move e [] ({ e.ingestFold v with
          backfillDepth := (e.ingestFold v).backfillDepth.erase v.eventId } : SyncEngine env sealing room) :=
        (Story.single hfold).before (.silent ⟨rfl, rfl, rfl, rfl, rfl⟩)
      exact hdrop.trans (.single (.flush _ origin))

theorem deliverFrame_story (origin : Option PeerId) (e : SyncEngine env sealing room) (f : Frame) :
    Story Move e (e.deliverFrameDeeds origin f) (e.deliverFrame f) := by
  unfold deliverFrameDeeds deliverFrame
  split_ifs
  · exact .refl e
  · cases validate env ⟨room, none⟩ f.eventId f.event with
    | ok v => exact deliver_story origin v
    | error reason => exact .refl e

theorem finalize_story (origin : Option PeerId) : Story Move e (e.finalizeDeeds origin) e.finalizeDelivery :=
  ((Story.single (Move.flush e origin)).trans wakePark_story).trans (.single (.flush _ origin))

theorem publish_story (f : Frame) : Story Move e (e.publishDeeds f) (e.step (.publish f)) := by
  unfold publishDeeds step
  dsimp only
  cases hpublish : e.publish f with
  | error err => exact .refl e
  | ok e' =>
    obtain ⟨v, hv, rfl⟩ := publish_ok hpublish
    rw [hv]
    exact (deliver_story none v).trans (finalize_story none)

theorem recomputeCompleteness_silent (e : SyncEngine env sealing room) : Silent e e.recomputeCompleteness :=
  ⟨rfl, rfl, rfl, rfl, rfl⟩

theorem handleAdminTip_silent (tip : Option (EventId × Nat)) : Silent e (e.handleAdminTip tip) := by
  unfold handleAdminTip armSuspectTip
  cases tip with
  | none => exact recomputeCompleteness_silent e
  | some t =>
    dsimp only
    split_ifs <;> exact ⟨rfl, rfl, rfl, rfl, rfl⟩

theorem expireSuspectTip_silent : Silent e e.expireSuspectTip := by
  unfold expireSuspectTip
  split
  · exact ⟨rfl, rfl, rfl, rfl, rfl⟩
  · split_ifs <;> exact ⟨rfl, rfl, rfl, rfl, rfl⟩

theorem adoptKeyHistory_silent (chunks : List KeyHistoryChunk) (e : SyncEngine env sealing room) :
    Silent e (chunks.foldl adoptKeyHistoryChunk e) :=
  List.foldlRecOn chunks adoptKeyHistoryChunk (motive := fun f : SyncEngine env sealing room => Silent e f)
    ⟨rfl, rfl, rfl, rfl, rfl⟩ fun _ h _ _ => ⟨h.config, h.store, h.storeRetry, h.tokens, h.park⟩

theorem dispatched_story (sender : PeerId) (msg : SyncMessage) :
    Story Move e (told (deliverFrameDeeds (some sender)) deliverFrame msg.frames e) (e.dispatched msg) := by
  cases msg with
  | adminTip tip => exact .single (.silent (handleAdminTip_silent tip))
  | events frames => exact .foldl id (deliverFrame_story (some sender)) frames e
  | terminalEvents frames => exact .foldl id (deliverFrame_story (some sender)) frames e
  | keyHistory chunks => exact .single (.silent (adoptKeyHistory_silent chunks e))
  | other => exact .refl e

theorem onMessage_story (sender : PeerId) (msg : RoomMessage) :
    Story Move e (e.onMessageDeeds sender msg) (e.onMessage msg.roomId msg.body.toSync) := by
  unfold onMessageDeeds onMessage
  by_cases hroom : msg.roomId ≠ room
  · rw [if_pos hroom, if_pos hroom]
    exact .refl e
  · rw [if_neg hroom, if_neg hroom]
    exact (dispatched_story sender msg.body.toSync).trans (finalize_story (some sender))

theorem onTick_story (origins : EventId → Option PeerId) : Story Move e (e.onTickDeeds origins) e.onTick := by
  have hexpire : Story Move e (.ticked :: e.refillDeeds) e.refillTokens.expireSuspectTip :=
    (Story.single (.refill e)).before (.silent expireSuspectTip_silent)
  exact ((hexpire.trans (.single (.retry _ origins))).trans retryPark_story).trans retryRestoredPark_story

/-- Every call is a story of moves. -/
theorem step_story (past : List (Deed env room)) (c : Call) : Story Move e (e.deeds past c) (e.step c.input) := by
  cases c with
  | ingestFrame sender f => exact (deliverFrame_story (some sender) e f).trans (finalize_story (some sender))
  | publish f => exact publish_story f
  | onConnect peer =>
    have hpeer : Move e [] ({ e with peers := e.peers.add peer } : SyncEngine env sealing room) :=
      .silent ⟨rfl, rfl, rfl, rfl, rfl⟩
    exact .after hpeer retryRestoredPark_story
  | onDisconnect peer => exact .single (.silent ⟨rfl, rfl, rfl, rfl, rfl⟩)
  | onMessage sender msg => exact onMessage_story sender msg
  | onTick => exact onTick_story (queuedFrom past)
  | insertRoomKey epoch key => exact .single (.silent ⟨rfl, rfl, rfl, rfl, rfl⟩)

end SyncEngine

/-- An engine and the journal that led to it. -/
structure Session (env : Env) (sealing : Sealing) (room : RoomId) where
  engine : SyncEngine env sealing room
  past : List (Deed env room)

/-- A call that returns. -/
def Session.call (s : Session env sealing room) (c : Call) : Session env sealing room :=
  ⟨s.engine.step c.input, s.past ++ s.engine.deeds s.past c⟩

end IrohRooms
