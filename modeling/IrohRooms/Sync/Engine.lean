import IrohRooms.Event.Build
import IrohRooms.Membership.Graph
import IrohRooms.Sync.Reads

/-!
# The sync engine

One room's engine as a state machine: it folds delivered events, persists the accepted ones in batches, parks the
buffered ones, adopts epoch keys, and fails closed while an admin tip it was told of is missing. `step` is one
entry-point call. Reads of the store do not fail; its write transactions follow the store's own schedule. What the
engine sends, logs and counts is left out, and so is the copy of its transient state in the sync tables: `openEngine`
takes the tables as an argument.
-/

namespace IrohRooms

abbrev PeerId := DeviceKey

/-- The bounds of the engine that decide on its state. -/
structure SyncConfig where
  maxParkedPerAuthor : Nat
  maxParkedTotal : Nat
  backfillTokensPerAuthor : Nat
  backfillRefillPerTick : Nat
  maxBackfillDepth : Nat
  maxUnconfirmedTipAttempts : Nat
  storeRetryAttempts : Nat
  maxStoreRetryTotal : Nat
  storeInsertBatchSize : Nat
  earlyEventIdDedupCacheEntries : Nat
  encryptedContentWrites : Bool
  deriving DecidableEq, Repr

namespace SyncConfig

/-- The default configuration. -/
def standard : SyncConfig := ⟨1024, 1024, 32, 8, 1024, 16, 16, 1024, 32, 4096, false⟩

/-- Why a configuration is refused, if it is. -/
def validate (c : SyncConfig) : Option String :=
  if c.maxParkedTotal = 0 ∨ c.maxParkedPerAuthor = 0 then some "park_cap_zero"
  else if c.storeRetryAttempts = 0 ∨ c.maxStoreRetryTotal = 0 then some "store_retry_zero"
  else if c.storeInsertBatchSize = 0 then some "store_batch_size_zero"
  else if c.storeInsertBatchSize > 1024 then some "store_batch_size_oversized"
  else if c.earlyEventIdDedupCacheEntries > 1000000 then some "early_dedup_cache_oversized"
  else none

end SyncConfig

/-- The admin-completeness verdict; only `adminViewSuspect` denies anyone. -/
inductive Completeness
  | complete | adminViewSuspect | adminForkDetected
  deriving DecidableEq, Repr

/-- An advertised admin tip that is not held, with the ticks left before it expires. -/
structure SuspectTip where
  id : EventId
  seq : Nat
  attempts : Nat
  deriving DecidableEq, Repr

structure MembershipProjectionCache where
  snapshot : MembershipSnapshot
  foldGeneration : Nat

/-- A parked orphan, with the parents it waits for. -/
structure Parked (env : Env) (room : RoomId) where
  event : ValidatedEvent env room
  author : IdentityKey
  seq : Nat
  depth : Nat
  missing : OrdSet EventId

/-- A fold-accepted event whose insert failed. -/
structure StoreRetry (env : Env) (room : RoomId) where
  event : ValidatedEvent env room
  attempts : Nat
  seq : Nat

/-- Bounded first-in first-out cache of persisted ids. -/
structure EventIdDedupCache where
  cap : Nat
  order : List EventId
  deriving DecidableEq

namespace EventIdDedupCache

def contains (c : EventIdDedupCache) (id : EventId) : Bool := decide (c.cap > 0) && decide (id ∈ c.order)

/-- Record an id, dropping the oldest ones at capacity. -/
def insert (c : EventIdDedupCache) (id : EventId) : EventIdDedupCache :=
  if c.cap = 0 ∨ id ∈ c.order then c
  else { c with order := c.order.drop (c.order.length + 1 - c.cap) ++ [id] }

end EventIdDedupCache

/-- A wire frame that decodes: the hash of its bytes, their number, and the event. -/
structure Frame where
  eventId : EventId
  event : SignedEvent
  frameLen : Nat

structure KeyHistoryChunk where
  epoch : Nat
  keyCommitment : BitVec 256
  wrappedKeys : List (DeviceKey × WrappedKeyEntry)
  distributionEventId : EventId

/-- The messages that change the receiver's state, and `other` for those that are only answered or logged. -/
inductive SyncMessage
  | adminTip (tip : Option (EventId × Nat))
  | events (frames : List Frame)
  | terminalEvents (frames : List Frame)
  | keyHistory (chunks : List KeyHistoryChunk)
  | other

/-- The frames a message delivers. -/
def SyncMessage.frames : SyncMessage → List Frame
  | .events frames | .terminalEvents frames => frames
  | _ => []

/-- The state. -/
structure SyncEngine (env : Env) (sealing : Sealing) (room : RoomId) where
  config : SyncConfig
  localDeviceSeed : Option SigningKey
  store : EventStore env room
  fold : RoomMembership env room
  membershipProjection : MembershipProjectionCache
  peers : OrdSet PeerId
  park : OrdMap EventId (Parked env room)
  storeRetry : OrdMap EventId (StoreRetry env room)
  storeRetrySeq : Nat
  restoredBackfill : OrdSet EventId
  parkSeq : Nat
  backfillDepth : OrdMap EventId Nat
  tokens : OrdMap IdentityKey Nat
  suspectTip : Option SuspectTip
  completeness : Completeness
  failClosed : OrdSet IdentityKey
  dedupCache : EventIdDedupCache
  pendingBatch : List (ValidatedEvent env room)
  keyRing : KeyRing

/-- What a store's sync tables hold for the room. -/
structure SyncTables (env : Env) (room : RoomId) where
  parked : OrdMap EventId (Parked env room)
  suspectTip : Option SuspectTip
  tokens : OrdMap IdentityKey Nat
  roomKeys : OrdMap Nat (RoomKey × EventId)

namespace SyncEngine

variable {env : Env} {sealing : Sealing} {room : RoomId} (e : SyncEngine env sealing room)

/-! ### Queries -/

def snapshot : MembershipSnapshot := e.membershipProjection.snapshot

def failClosedSubjects : List IdentityKey := e.failClosed.toList

def pipeOpened (pipeId : ShortId) : Option PipeOpened := e.store.pipeOpened sealing e.keyRing.roomKeys pipeId

def pipeIsClosed (pipeId : ShortId) : Bool := e.store.pipeIsClosed sealing e.keyRing.roomKeys pipeId

def fileSharedHashes : OrdSet HashRef := e.store.fileSharedHashes sealing e.keyRing.roomKeys

/-! ### Completeness -/

/-- A tip is ahead of the held admin chain and its event is not stored. -/
def isAhead (id : EventId) (seq : Nat) : Bool :=
  (match e.store.adminChainTip with
    | none => true
    | some t => decide (seq > t.2)) && !e.store.contains id

def stillBehind : Bool :=
  match e.suspectTip with
  | some t => e.isAhead t.id t.seq
  | none => false

/-- The non-admin, non-Removed members. -/
def removalSensitive (snapshot : MembershipSnapshot) : OrdSet IdentityKey :=
  OrdSet.ofList ((snapshot.members.values.filter fun m =>
    decide (snapshot.admin ≠ some m.identity) && decide (m.status ≠ .removed)).map Member.identity)

/-- Re-derive the verdict, the suspicion and the fail-closed set. -/
def recomputeCompleteness : SyncEngine env sealing room :=
  let fork := e.snapshot.admin.bind e.fold.adminDivergence
  let behind := e.stillBehind
  { e with
    suspectTip := if behind then e.suspectTip else none
    completeness := if behind then .adminViewSuspect
      else if fork.isSome then .adminForkDetected else .complete
    failClosed := if behind then removalSensitive e.snapshot else OrdMap.empty }

/-- Arm the suspicion; a repeat of the tip being chased keeps its budget. -/
def armSuspectTip (id : EventId) (seq : Nat) : SyncEngine env sealing room :=
  let fresh := match e.suspectTip with
    | some t => decide (t.id ≠ id) || decide (t.seq ≠ seq)
    | none => true
  if fresh then { e with suspectTip := some ⟨id, seq, e.config.maxUnconfirmedTipAttempts⟩ } else e

def handleAdminTip (tip : Option (EventId × Nat)) : SyncEngine env sealing room :=
  (match tip with
    | some t => if e.isAhead t.1 t.2 then e.armSuspectTip t.1 t.2 else e
    | none => e).recomputeCompleteness

/-- Spend a tick of the suspicion; the last one drops it. -/
def expireSuspectTip : SyncEngine env sealing room :=
  match e.suspectTip with
  | none => e
  | some t =>
    if t.attempts = 0 then recomputeCompleteness { e with suspectTip := none }
    else { e with suspectTip := some { t with attempts := t.attempts - 1 } }

/-! ### Persistence of accepted events -/

/-- The bookkeeping of a successful insert. -/
def applyInsertOutcome (outcome : InsertOutcome) (v : ValidatedEvent env room) : SyncEngine env sealing room :=
  let seen := { e with dedupCache := e.dedupCache.insert v.eventId }
  match outcome with
  | .duplicate => seen
  | .inserted => recomputeCompleteness { seen with
      keyRing := seen.keyRing.adoptKeyFromEvent env sealing room seen.localDeviceSeed v.eventId v.event.content }

/-- Queue a failed insert; beyond the cap it is dropped. -/
def enqueueStoreRetry (v : ValidatedEvent env room) : SyncEngine env sealing room :=
  if e.storeRetry.contains v.eventId then e
  else if e.storeRetry.entries.length ≥ e.config.maxStoreRetryTotal then e
  else { e with
    storeRetry := e.storeRetry.insert v.eventId ⟨v, 0, e.storeRetrySeq⟩
    storeRetrySeq := min (e.storeRetrySeq + 1) u64Max }

/-- A landed event leaves the retry queue. -/
def applyLanded (landed : ValidatedEvent env room × InsertOutcome) : SyncEngine env sealing room :=
  applyInsertOutcome { e with storeRetry := e.storeRetry.erase landed.1.eventId } landed.2 landed.1

/-- Commit the buffered accepted events in one transaction. -/
def flushStoreBatch : SyncEngine env sealing room :=
  if e.pendingBatch = [] then e
  else
    let batch := e.pendingBatch
    let r := e.store.insertAllOutcomes batch
    let cleared := { e with pendingBatch := [], store := r.1 }
    match r.2 with
    | some outcomes => (batch.zip outcomes).foldl applyLanded cleared
    | none => batch.foldl enqueueStoreRetry cleared

/-- Persist one accepted event by itself. -/
def storeAndFanout (v : ValidatedEvent env room) : SyncEngine env sealing room :=
  let r := e.store.insert v
  match r.2 with
  | some outcome => applyLanded { e with store := r.1 } (v, outcome)
  | none => enqueueStoreRetry { e with store := r.1 } v

/-- One failed retry, dropped once its budget is gone. -/
def failRetry (id : EventId) (r : StoreRetry env room) : SyncEngine env sealing room :=
  if r.attempts + 1 ≥ e.config.storeRetryAttempts then { e with storeRetry := e.storeRetry.erase id }
  else { e with storeRetry := e.storeRetry.insert id { r with attempts := r.attempts + 1 } }

/-- Retry in the given order; a failure ends the pass. -/
def retryStoreLoop : List EventId → SyncEngine env sealing room → SyncEngine env sealing room
  | [], e => e
  | id :: rest, e =>
    match e.storeRetry.get? id with
    | none => retryStoreLoop rest e
    | some r =>
      let w := e.store.insert r.event
      match w.2 with
      | some outcome => retryStoreLoop rest
          (applyInsertOutcome { e with store := w.1, storeRetry := e.storeRetry.erase id } outcome r.event)
      | none => failRetry { e with store := w.1 } id r

/-- The queued ids in enqueue order. -/
def retryOrder : List EventId :=
  ((e.storeRetry.entries.map fun p => toLex (p.2.seq, p.1)).insertionSort (· ≤ ·)).map fun p => (ofLex p).2

def retryStore : SyncEngine env sealing room := retryStoreLoop e.retryOrder e

/-! ### The fold -/

/-- Refresh the cached projection when the fold's generation moved. -/
def refreshMembershipProjectionIfNeeded : SyncEngine env sealing room :=
  let generation := e.fold.membershipProjectionGeneration
  if generation = e.membershipProjection.foldGeneration then e
  else { e with membershipProjection := ⟨e.fold.snapshot, generation⟩ }

def ingestFold (v : ValidatedEvent env room) : SyncEngine env sealing room :=
  refreshMembershipProjectionIfNeeded { e with fold := e.fold.ingest v }

/-! ### The park -/

/-- A parent is not stored, so the event would buffer. -/
def wouldBuffer (v : ValidatedEvent env room) : Bool := v.event.prevEvents.any fun p => !e.store.contains p

/-- The sender is the admin or a known subject, or the event is a join. -/
def signerPlausible (v : ValidatedEvent env room) : Bool :=
  match v.event.content with
  | .memberJoined _ => true
  | _ => e.snapshot.admin == some v.event.senderId || (e.snapshot.member v.event.senderId).isSome

/-- Neither stored nor already parked. -/
def worthBackfilling (parent : EventId) : Bool := !e.store.contains parent && !e.park.contains parent

/-- The parked id that arrived first, of one author or of all. -/
def oldestParked (author : Option IdentityKey) : Option EventId :=
  ((e.park.entries.filter fun p => author.all (· == p.2.author)).map fun p => toLex (p.2.seq, p.1)).min?.map
    fun p => (ofLex p).2

def evictParked (id : EventId) : SyncEngine env sealing room :=
  { e with
    park := e.park.erase id
    backfillDepth := e.backfillDepth.erase id
    restoredBackfill := OrdMap.erase e.restoredBackfill id }

/-- Evict the oldest while the park is full. -/
def enforceTotal : Nat → SyncEngine env sealing room → SyncEngine env sealing room
  | 0, e => e
  | fuel + 1, e =>
    if e.park.entries.length ≥ e.config.maxParkedTotal then
      match e.oldestParked none with
      | some id => enforceTotal fuel (e.evictParked id)
      | none => e
    else e

def enforceAuthor (author : IdentityKey) : SyncEngine env sealing room :=
  if (e.park.values.filter fun p => p.author == author).length ≥ e.config.maxParkedPerAuthor then
    match e.oldestParked (some author) with
    | some id => e.evictParked id
    | none => e
  else e

def parkFrame (v : ValidatedEvent env room) (depth : Nat) (missing : List EventId) : SyncEngine env sealing room :=
  if e.park.contains v.eventId then e
  else
    let author := v.event.senderId
    let capped := (enforceTotal (e.park.entries.length + 1) e).enforceAuthor author
    { capped with
      parkSeq := capped.parkSeq + 1
      park := capped.park.insert v.eventId ⟨v, author, capped.parkSeq + 1, depth, OrdSet.ofList missing⟩ }

/-- Take a backfill token of the author, if one is left. -/
def takeBackfillToken (author : IdentityKey) : SyncEngine env sealing room × Bool :=
  let bucket := (e.tokens.get? author).getD e.config.backfillTokensPerAuthor
  ({ e with tokens := e.tokens.insert author (bucket - 1) }, decide (bucket > 0))

/-- Chase the parents still worth it at the next depth, if a token is left. -/
def chase (author : IdentityKey) (depth : Nat) (missing : List EventId) : SyncEngine env sealing room :=
  let toFetch := missing.filter e.worthBackfilling
  if toFetch = [] then e
  else
    let taken := e.takeBackfillToken author
    if taken.2 then { taken.1 with
      backfillDepth := toFetch.foldl (fun d m => if d.contains m then d else d.insert m (depth + 1))
        taken.1.backfillDepth }
    else taken.1

/-- Park a buffered event and chase its missing parents; too deep or implausible ones are dropped. -/
def onBuffered (v : ValidatedEvent env room) (missing : List EventId) : SyncEngine env sealing room :=
  let depth := (e.backfillDepth.get? v.eventId).getD 0
  if depth > e.config.maxBackfillDepth then e
  else if !e.signerPlausible v then e
  else
    let parked := e.parkFrame v depth missing
    match parked.park.get? v.eventId with
    | none => parked
    | some p => parked.chase p.author depth missing

/-- Look at one parked frame: promote it, drop it, or leave it; the flag says whether it left the park. -/
def wakeOne (st : SyncEngine env sealing room × Bool) (id : EventId) : SyncEngine env sealing room × Bool :=
  match st.1.park.get? id with
  | none => st
  | some p =>
    let folded := st.1.ingestFold p.event
    match folded.fold.outcome p.event.eventId with
    | .accepted .. => ((folded.evictParked id).storeAndFanout p.event, true)
    | .rejected .. => (folded.evictParked id, true)
    | .buffered .. => (folded, st.2)

/-- Pass over the park until a pass changes nothing; each pass that does removes a frame. -/
def wakeParkLoop : Nat → SyncEngine env sealing room → SyncEngine env sealing room
  | 0, e => e
  | fuel + 1, e =>
    let r := e.park.keys.foldl wakeOne (e, false)
    if r.2 then wakeParkLoop fuel r.1 else r.1

def wakePark : SyncEngine env sealing room := wakeParkLoop (e.park.entries.length + 1) e

/-- Chase again for every parked frame, on a tick. -/
def retryPark : SyncEngine env sealing room :=
  let woken := e.wakePark
  (woken.park.values.map fun p => (p.author, p.depth, p.missing.toList)).foldl
    (fun e p => e.chase p.1 p.2.1 p.2.2) woken

def retryRestoredOne (e : SyncEngine env sealing room) (id : EventId) : SyncEngine env sealing room :=
  let cleared := { e with restoredBackfill := OrdMap.erase e.restoredBackfill id }
  match cleared.park.get? id with
  | none => cleared
  | some p => cleared.chase p.author p.depth p.missing.toList

/-- Chase once for every frame restored at the start. -/
def retryRestoredPark : SyncEngine env sealing room :=
  if e.restoredBackfill.toList = [] ∨ e.peers.toList = [] then e
  else e.restoredBackfill.toList.foldl retryRestoredOne e

/-! ### Delivery -/

def deliver (v : ValidatedEvent env room) : SyncEngine env sealing room :=
  -- anti-amplification: an event that would buffer enters the fold only if its signer is plausible
  if e.wouldBuffer v && !e.signerPlausible v then e
  else
    let folded := e.ingestFold v
    match folded.fold.outcome v.eventId with
    | .accepted .. =>
      let queued := { folded with
        backfillDepth := folded.backfillDepth.erase v.eventId
        pendingBatch := folded.pendingBatch ++ [v] }
      if queued.pendingBatch.length ≥ queued.config.storeInsertBatchSize then queued.flushStoreBatch else queued
    | .buffered _ missing => folded.flushStoreBatch.onBuffered v missing
    | .rejected .. => flushStoreBatch { folded with backfillDepth := folded.backfillDepth.erase v.eventId }

/-- A frame whose id was seen persisted is skipped; an invalid one is dropped. -/
def deliverFrame (f : Frame) : SyncEngine env sealing room :=
  if e.dedupCache.contains f.eventId then e
  else match validate env ⟨room, none⟩ f.eventId f.event with
    | .ok v => e.deliver v
    | .error _ => e

def finalizeDelivery : SyncEngine env sealing room := e.flushStoreBatch.wakePark.flushStoreBatch

/-! ### Entry points -/

def ingestFrame (f : Frame) : SyncEngine env sealing room := (e.deliverFrame f).finalizeDelivery

inductive SyncError
  | invalidFrame (reason : RejectReason)
  | oversizedFrame (frameLen : Nat)
  | encryptedWritesDisabled | plaintextWritesDisabled
  deriving DecidableEq, Repr

def maxFrameBytes : Nat := 1024 * 1024

def eventsEnvelopeAllowance : Nat := 128

def eventsPerFrameOverhead : Nat := 5

/-- The five types that may be sealed. -/
def encryptable : EventType → Bool
  | .messageText | .fileShared | .pipeOpened | .pipeClosed | .agentStatus => true
  | _ => false

/-- The rollout gate on local authoring. -/
def writerGate (config : SyncConfig) (ty : EventType) : Except SyncError Unit :=
  if ty = .contentEncrypted then
    if config.encryptedContentWrites then .ok () else .error .encryptedWritesDisabled
  else if config.encryptedContentWrites && encryptable ty then .error .plaintextWritesDisabled
  else .ok ()

def publish (f : Frame) : Except SyncError (SyncEngine env sealing room) :=
  if f.frameLen + (eventsEnvelopeAllowance + eventsPerFrameOverhead) > maxFrameBytes
  then .error (.oversizedFrame f.frameLen)
  else match validate env ⟨room, none⟩ f.eventId f.event with
    | .error reason => .error (.invalidFrame reason)
    | .ok v =>
      match writerGate e.config v.event.eventType with
      | .error err => .error err
      | .ok () => .ok (e.deliver v).finalizeDelivery

def onConnect (peer : PeerId) : SyncEngine env sealing room :=
  retryRestoredPark { e with peers := e.peers.add peer }

def onDisconnect (peer : PeerId) : SyncEngine env sealing room :=
  { e with peers := OrdMap.erase e.peers peer }

def adoptKeyHistoryChunk (c : KeyHistoryChunk) : SyncEngine env sealing room :=
  { e with
    keyRing := e.keyRing.adoptKeyDistribution env sealing room e.localDeviceSeed c.distributionEventId
      ⟨c.epoch, c.keyCommitment, c.wrappedKeys⟩ true }

/-- Handle one message; one of another room is dropped. -/
def onMessage (msgRoom : RoomId) (msg : SyncMessage) : SyncEngine env sealing room :=
  if msgRoom ≠ room then e
  else finalizeDelivery <| match msg with
    | .adminTip tip => e.handleAdminTip tip
    | .events frames => frames.foldl deliverFrame e
    | .terminalEvents frames => frames.foldl deliverFrame e
    | .keyHistory chunks => chunks.foldl adoptKeyHistoryChunk e
    | .other => e

def refillTokens : SyncEngine env sealing room :=
  { e with
    tokens := e.tokens.mapValues fun t =>
      min (t + e.config.backfillRefillPerTick) e.config.backfillTokensPerAuthor }

def onTick : SyncEngine env sealing room :=
  e.refillTokens.expireSuspectTip.retryStore.retryPark.retryRestoredPark

/-- Offer a key locally, attributed to the zero id. -/
def insertRoomKey (epoch : Nat) (key : RoomKey) : SyncEngine env sealing room :=
  { e with keyRing := { e.keyRing with roomKeys := (e.keyRing.roomKeys.insert epoch key ⟨0⟩).1 } }

/-- The engine over a store and its tables: the placed rows refolded, the transient state restored. -/
def restore (config : SyncConfig) (localDeviceSeed : Option SigningKey) (store : EventStore env room)
    (tables : SyncTables env room) : SyncEngine env sealing room :=
  let validated := store.roomTail.map Row.event
  let fold := RoomMembership.fromEvents validated
  recomputeCompleteness
    { config := config
      localDeviceSeed := localDeviceSeed
      store := store
      fold := fold
      membershipProjection := ⟨fold.snapshot, fold.membershipProjectionGeneration⟩
      peers := OrdMap.empty
      park := tables.parked
      storeRetry := OrdMap.empty
      storeRetrySeq := 0
      restoredBackfill := OrdSet.ofList tables.parked.keys
      parkSeq := (tables.parked.values.map Parked.seq).foldl max 0
      backfillDepth := OrdMap.empty
      tokens := tables.tokens
      suspectTip := tables.suspectTip
      completeness := .complete
      failClosed := OrdMap.empty
      dedupCache := (validated.map ValidatedEvent.eventId).foldl EventIdDedupCache.insert
        ⟨config.earlyEventIdDedupCacheEntries, []⟩
      pendingBatch := []
      keyRing := { KeyRing.new with
        roomKeys := tables.roomKeys.entries.foldl (fun ks p => (ks.insert p.1 p.2.1 p.2.2).1) .empty } }

/-- Open the engine, unless the configuration is refused. -/
def openEngine (config : SyncConfig) (localDeviceSeed : Option SigningKey) (store : EventStore env room)
    (tables : SyncTables env room) : Except String (SyncEngine env sealing room) :=
  match config.validate with
  | some reason => .error reason
  | none => .ok (restore config localDeviceSeed store tables)

/-- One call from outside. -/
inductive Input
  | ingestFrame (f : Frame)
  | publish (f : Frame)
  | onConnect (peer : PeerId)
  | onDisconnect (peer : PeerId)
  | onMessage (msgRoom : RoomId) (msg : SyncMessage)
  | onTick
  | insertRoomKey (epoch : Nat) (key : RoomKey)

def Input.frames : Input → List Frame
  | .ingestFrame f | .publish f => [f]
  | .onMessage _ msg => msg.frames
  | _ => []

/-- The state after a call; a refused publish changes nothing. -/
def step : Input → SyncEngine env sealing room
  | .ingestFrame f => e.ingestFrame f
  | .publish f =>
    match e.publish f with
    | .ok e' => e'
    | .error _ => e
  | .onConnect peer => e.onConnect peer
  | .onDisconnect peer => e.onDisconnect peer
  | .onMessage msgRoom msg => e.onMessage msgRoom msg
  | .onTick => e.onTick
  | .insertRoomKey epoch key => e.insertRoomKey epoch key

end SyncEngine

/-! ### The worked room

An engine of the worked room on an empty store, run on a list of frames. Its envelopes never open. -/

namespace Toy

def sealing : Sealing where
  openContent _ _ _ _ _ := .error .authentication
  unwrapRoomKey _ _ _ _ := none
  roomKeyCommitment _ _ _ := 0
  aadFor _ := []
  parseBody _ _ := .error .malformedPlaintext
  parseBody_type h := nomatch h

def frame (p : Nat × SignedEvent) : Frame := ⟨Bytes32.ofNat p.1, p.2, 0⟩

def opened : SyncEngine toyEnv sealing room :=
  .restore .standard none (.openEmpty []) ⟨.empty, none, .empty, .empty⟩

def run (events : List (Nat × SignedEvent)) : SyncEngine toyEnv sealing room :=
  (events.map frame).foldl SyncEngine.ingestFrame opened

/-- Nothing is read out of an envelope. -/
theorem readContent_eq_ok {keys : EpochKeyStore} {event : SignedEvent} {content : Content}
    (h : readContent sealing keys event = .ok content) : event.content = content := by
  unfold readContent at h
  split at h
  · rename_i c hc
    split_ifs at h
    split at h
    · cases h
    · simp [openEncryptedContent, hc, sealing] at h
  · exact Except.ok.inj h

end Toy

end IrohRooms
