import IrohRooms.Sync.Serve

/-!
# What a call sends

The messages an engine returns from a call, and the counters that decide on them and on nothing else (`SyncNode`). A
delivery announces what it stores to every peer but the sender and asks for missing parents; the periodic round repeats
the tip to everybody and the pulls to a rotating window of peers, as long as something stirred since the last full
sweep. The functions follow those of the engine, one each, and read the states these pass through. Writes succeed here:
the origin of an event that waits for a second write is not kept, so `retryStore` sends nothing. The sets an answer is
cut from are computed afresh instead of being kept until the next insert.
-/

namespace IrohRooms

variable {env : Env} {sealing : Sealing} {room : RoomId}

/-- The bounds of what is sent, wrapping a room key for a device, and the encoded length of a chunk. -/
structure Sending (env : Env) (room : RoomId) extends Serving env room where
  maxBackfillFanoutIds : Nat
  pullFanoutPeers : Nat
  membershipHaveMaxIds : Nat
  wrapRoomKey : RoomKey → DeviceKey → Nat → Option WrappedKeyEntry
  chunkLen : KeyHistoryChunk → Nat

def u32Max : Nat := 2 ^ 32 - 1

/-- A product of two machine words. -/
def wrappingMul (a b : Nat) : Nat := a * b % 2 ^ 64

/-- What a part of a call leaves outside the engine: messages, and whether the next tick is to pull. -/
structure Sent where
  out : List Outgoing
  stirs : Bool

namespace Sent

def nothing : Sent := ⟨[], false⟩

def append (a b : Sent) : Sent := ⟨a.out ++ b.out, a.stirs || b.stirs⟩

instance : Append Sent := ⟨append⟩

@[simp] theorem append_out (s t : Sent) : (s ++ t).out = s.out ++ t.out := rfl

end Sent

namespace EventStore

variable (s : EventStore env room)

def placedHeads : List EventId := s.heads.filter fun id => (s.lamportOf id).isSome

/-- A page of the placed ids, newest first. -/
def recentEventIds (limit offset : Nat) : List EventId :=
  ((s.roomTail.reverse.map fun row => row.event.eventId).drop offset).take limit

end EventStore

namespace SyncEngine

variable (sending : Sending env room) (origin : Option PeerId) (e : SyncEngine env sealing room)

/-! ### Claims and key history -/

/-- Add ids to a claim until it has `cap` of them. -/
def claimUpTo (cap : Nat) (ids : List EventId) (claim : OrdSet EventId) : OrdSet EventId :=
  ids.foldl (fun claim id => if claim.toList.length ≥ cap then claim else claim.add id) claim

/-- The ancestry claim of a pull: placed heads, the newest ids, and a window over the older ones that the rotation
moves. -/
def membershipHave (claimRotation : Nat) : List EventId :=
  let cap := sending.membershipHaveMaxIds
  let heads := claimUpTo ((cap + 1) / 2) e.store.placedHeads .empty
  let slab := (cap - heads.toList.length + 1) / 2
  let recent := claimUpTo cap (e.store.recentEventIds (min slab u32Max) 0) heads
  let window := cap - recent.toList.length
  let span := e.store.roomTail.length - slab
  if window > 0 ∧ span > 0 then
    (recent.extend (e.store.recentEventIds (min window u32Max)
      (slab + wrappingMul claimRotation window % span))).toList
  else recent.toList

def chatHave : List EventId :=
  ((lastOf sending.chatWindowMax e.store.roomTail).filter Row.isChatClass).map fun row => row.event.eventId

def keyHistoryEnvelopeAllowance : Nat := 128

def maxKeyHistoryChunksPerResponse : Nat := 32

/-- The held keys, by epoch. -/
def iterHeld : List (Nat × RoomKey) :=
  e.keyRing.roomKeys.epochs.entries.filterMap fun entry =>
    match entry.2 with
    | .key key _ => some (entry.1, key)
    | .poisoned => none

/-- A chunk wrapped for the asking device alone, if it is an active member's. -/
def buildKeyHistoryChunk (requester : DeviceKey) (held : Nat × RoomKey) : Option KeyHistoryChunk :=
  if e.localDeviceSeed.isNone || e.snapshot.admin.isNone then none
  else (e.snapshot.identityOfDevice requester).bind fun identity =>
    if e.snapshot.status identity ≠ some .active then none
    else (sending.wrapRoomKey held.2 requester held.1).map fun wrapped =>
      ⟨held.1, sealing.roomKeyCommitment held.2 room held.1, [(requester, wrapped)], ⟨0⟩⟩

/-- Cut the chunks of the held keys the requester lacks into messages within the byte budget. -/
def keyHistoryMessages (peer : PeerId) (haveEpochs : OrdSet Nat) :
    List (Nat × RoomKey) → List KeyHistoryChunk → Nat → List Outgoing
  | [], chunks, _ => if chunks.isEmpty then [] else [toPeer room peer (.keyHistory chunks)]
  | held :: rest, chunks, budget =>
    if held.1 ∈ haveEpochs then keyHistoryMessages peer haveEpochs rest chunks budget
    else if chunks.length ≥ maxKeyHistoryChunksPerResponse then
      if chunks.isEmpty then [] else [toPeer room peer (.keyHistory chunks)]
    else match e.buildKeyHistoryChunk sending peer held with
      | none => keyHistoryMessages peer haveEpochs rest chunks budget
      | some chunk =>
        let cost := keyHistoryEnvelopeAllowance + sending.chunkLen chunk
        let cut := !chunks.isEmpty && decide (cost > budget)
        let kept := if cut then [] else chunks
        let left := if cut then maxFrameBytes - keyHistoryEnvelopeAllowance else budget
        (if cut then [toPeer room peer (.keyHistory chunks)] else []) ++
          -- a chunk that exceeds a whole message is skipped
          if cost > left then keyHistoryMessages peer haveEpochs rest kept left
          else keyHistoryMessages peer haveEpochs rest (kept ++ [chunk]) (left - cost)

def serveWantKeyHistory (peer : PeerId) (haveEpochs : OrdSet Nat) : List Outgoing :=
  e.keyHistoryMessages sending peer haveEpochs e.iterHeld [] (maxFrameBytes - keyHistoryEnvelopeAllowance)

/-! ### Persistence -/

/-- The push of a freshly stored event to everybody but the peer it came from. -/
def fanout (v : ValidatedEvent env room) : List Outgoing :=
  (e.peers.toList.filter fun peer => some peer != origin).map fun peer =>
    ⟨peer, ⟨room, .events [⟨v.eventId, v.event, sending.wireLen v⟩]⟩, true⟩

def landedOut (landed : ValidatedEvent env room × InsertOutcome) : List Outgoing :=
  match landed.2 with
  | .inserted => e.fanout sending origin landed.1
  | .duplicate => []

def flushSent : Sent :=
  if e.pendingBatch = [] then .nothing
  else
    ⟨match (e.store.insertAllOutcomes e.pendingBatch).2 with
      | some outcomes => (e.pendingBatch.zip outcomes).flatMap (e.landedOut sending origin)
      | none => [], true⟩

def storeSent (v : ValidatedEvent env room) : Sent :=
  ⟨match (e.store.insert v).2 with
    | some outcome => e.landedOut sending origin (v, outcome)
    | none => [], true⟩

/-! ### The park -/

/-- Requests for ids, in chunks. -/
def requests (targets : List PeerId) (ids : List EventId) : List Outgoing :=
  (ids.toChunks sending.maxBackfillFanoutIds).flatMap fun chunk =>
    targets.map fun peer => toPeer room peer (.wantEvents chunk)

def chaseOut (targets : List PeerId) (author : IdentityKey) (missing : List EventId) : List Outgoing :=
  let toFetch := missing.filter e.worthBackfilling
  if toFetch = [] then []
  else if (e.takeBackfillToken author).2 then requests sending targets toFetch else []

/-- The sender if it is connected, else everybody. -/
def backfillTargets : List PeerId :=
  match origin with
  | some peer => if peer ∈ e.peers then [peer] else e.peers.toList
  | none => e.peers.toList

def onBufferedOut (v : ValidatedEvent env room) (missing : List EventId) : List Outgoing :=
  let depth := (e.backfillDepth.get? v.eventId).getD 0
  if depth > e.config.maxBackfillDepth then []
  else if !e.signerPlausible v then []
  else
    let parked := e.parkFrame v depth missing
    match parked.park.get? v.eventId with
    | none => []
    | some p => parked.chaseOut sending (parked.backfillTargets origin) p.author missing

/-- A promoted frame has no sender. -/
def wakeOneSent (st : SyncEngine env sealing room × Bool) (id : EventId) : Sent :=
  match st.1.park.get? id with
  | none => .nothing
  | some p =>
    let folded := st.1.ingestFold p.event
    match folded.fold.outcome p.event.eventId with
    | .accepted .. => (folded.evictParked id).storeSent sending none p.event
    | .rejected .. => .nothing
    | .buffered .. => .nothing

def wakePassSent : List EventId → SyncEngine env sealing room × Bool → Sent
  | [], _ => .nothing
  | id :: ids, st => wakeOneSent sending st id ++ wakePassSent ids (wakeOne st id)

def wakeParkLoopSent : Nat → SyncEngine env sealing room → Sent
  | 0, _ => .nothing
  | fuel + 1, e =>
    let r := e.park.keys.foldl wakeOne (e, false)
    wakePassSent sending e.park.keys (e, false) ++ if r.2 then wakeParkLoopSent fuel r.1 else .nothing

def wakeParkSent : Sent := wakeParkLoopSent sending (e.park.entries.length + 1) e

def chasesOut : List (IdentityKey × Nat × List EventId) → SyncEngine env sealing room → List Outgoing
  | [], _ => []
  | p :: ps, e => e.chaseOut sending e.peers.toList p.1 p.2.2 ++ chasesOut ps (e.chase p.1 p.2.1 p.2.2)

def retryParkSent : Sent :=
  e.wakeParkSent sending ++ ⟨chasesOut sending
    (e.wakePark.park.values.map fun p => (p.author, p.depth, p.missing.toList)) e.wakePark, false⟩

def retryRestoredOneOut (id : EventId) : List Outgoing :=
  let cleared : SyncEngine env sealing room := { e with restoredBackfill := OrdMap.erase e.restoredBackfill id }
  match cleared.park.get? id with
  | none => []
  | some p => cleared.chaseOut sending cleared.peers.toList p.author p.missing.toList

def retryRestoredLoopOut : List EventId → SyncEngine env sealing room → List Outgoing
  | [], _ => []
  | id :: ids, e => e.retryRestoredOneOut sending id ++ retryRestoredLoopOut ids (e.retryRestoredOne id)

def retryRestoredParkOut : List Outgoing :=
  if e.restoredBackfill.toList = [] ∨ e.peers.toList = [] then []
  else retryRestoredLoopOut sending e.restoredBackfill.toList e

/-! ### Delivery -/

def deliverSent (v : ValidatedEvent env room) : Sent :=
  if e.wouldBuffer v && !e.signerPlausible v then .nothing
  else
    let folded := e.ingestFold v
    match folded.fold.outcome v.eventId with
    | .accepted .. =>
      let queued : SyncEngine env sealing room := { folded with
        backfillDepth := folded.backfillDepth.erase v.eventId
        pendingBatch := folded.pendingBatch ++ [v] }
      if queued.pendingBatch.length ≥ queued.config.storeInsertBatchSize then queued.flushSent sending origin
      else .nothing
    | .buffered _ missing =>
      folded.flushSent sending origin ++ ⟨folded.flushStoreBatch.onBufferedOut sending origin v missing, false⟩
    | .rejected .. =>
      flushSent sending origin
        ({ folded with backfillDepth := folded.backfillDepth.erase v.eventId } : SyncEngine env sealing room)

def deliverFrameSent (f : Frame) : Sent :=
  if e.dedupCache.contains f.eventId then .nothing
  else match validate env ⟨room, none⟩ f.eventId f.event with
    | .ok v => e.deliverSent sending origin v
    | .error _ => .nothing

def deliverFramesSent : List Frame → SyncEngine env sealing room → Sent
  | [], _ => .nothing
  | f :: fs, e => e.deliverFrameSent sending origin f ++ deliverFramesSent fs (e.deliverFrame f)

def finalizeSent : Sent :=
  e.flushSent sending origin ++ e.flushStoreBatch.wakeParkSent sending ++
    e.flushStoreBatch.wakePark.flushSent sending origin

/-! ### Calls -/

/-- A tip that is ahead is chased at every peer. -/
def handleAdminTipOut (claimRotation : Nat) (tip : Option (EventId × Nat)) : List Outgoing :=
  match tip with
  | some t =>
    if e.isAhead t.1 t.2 then
      e.peers.toList.map fun peer => toPeer room peer (.wantMembership (e.membershipHave sending claimRotation))
    else []
  | none => []

/-- What a message is answered with before the batch is committed. -/
def dispatchedSent (claimRotation : Nat) (sender : PeerId) : MessageBody → Sent
  | .adminTip tip => ⟨e.handleAdminTipOut sending claimRotation tip, false⟩
  | .events frames => deliverFramesSent sending (some sender) frames e
  | .terminalEvents frames _ _ => deliverFramesSent sending (some sender) frames e
  | .wantKeyHistory haveEpochs => ⟨e.serveWantKeyHistory sending sender haveEpochs, false⟩
  | body => ⟨e.pulled sending.toServing sender body, false⟩

/-- The state a message leads to before the batch is committed. -/
def dispatched (msg : SyncMessage) : SyncEngine env sealing room :=
  match msg with
  | .adminTip tip => e.handleAdminTip tip
  | .events frames => frames.foldl deliverFrame e
  | .terminalEvents frames => frames.foldl deliverFrame e
  | .keyHistory chunks => chunks.foldl adoptKeyHistoryChunk e
  | .other => e

def onMessageOut (claimRotation : Nat) (sender : PeerId) (msg : RoomMessage) : List Outgoing :=
  if msg.roomId ≠ room then []
  else (e.dispatchedSent sending claimRotation sender msg.body ++
      (e.dispatched msg.body.toSync).finalizeSent sending (some sender)).out ++
    (e.onMessage msg.roomId msg.body.toSync).receipt sender msg.body

def publishSent (f : Frame) : Sent :=
  match e.publish f, validate env ⟨room, none⟩ f.eventId f.event with
  | .ok _, .ok v => e.deliverSent sending none v ++ (e.deliver v).finalizeSent sending none
  | _, _ => .nothing

def ingestFrameSent (sender : PeerId) (f : Frame) : Sent :=
  e.deliverFrameSent sending (some sender) f ++ (e.deliverFrame f).finalizeSent sending (some sender)

/-- The handshake, then requests for what the restored park misses. -/
def onConnectOut (claimRotation : Nat) (peer : PeerId) : List Outgoing :=
  [toPeer room peer (.adminTip e.store.adminChainTip), toPeer room peer (.heads e.store.heads),
    toPeer room peer (.wantMembership (e.membershipHave sending claimRotation)),
    toPeer room peer (.wantRecentChat ⟨sending.chatWindowDefault, none⟩ (e.chatHave sending))] ++
  retryRestoredParkOut sending ({ e with peers := e.peers.add peer } : SyncEngine env sealing room)

/-- The part of a tick that retries. -/
def retriesSent : Sent :=
  let retried := e.refillTokens.expireSuspectTip.retryStore
  retried.retryParkSent sending ++ ⟨retried.retryPark.retryRestoredParkOut sending, false⟩

def hasPendingSyncWork : Bool :=
  !e.park.entries.isEmpty || !e.storeRetry.entries.isEmpty || !e.restoredBackfill.toList.isEmpty ||
    e.suspectTip.isSome

/-- The peers a tick pulls from: all of them, or the window the rotation has reached. -/
def pullSet (claimRotation : Nat) : List PeerId :=
  let all := e.peers.toList
  if all.length ≤ sending.pullFanoutPeers then all
  else
    let start := wrappingMul claimRotation sending.pullFanoutPeers % all.length
    (List.range sending.pullFanoutPeers).filterMap fun i => all[(start + i) % all.length]?

/-- The tip to everybody, the pulls to the window. -/
def advertised (claimRotation : Nat) (emitPulls : Bool) : List Outgoing :=
  e.peers.toList.flatMap fun peer => toPeer room peer (.adminTip e.store.adminChainTip) ::
    if emitPulls && (e.pullSet sending claimRotation).contains peer then
      [toPeer room peer (.wantMembership (e.membershipHave sending claimRotation)),
        toPeer room peer (.wantRecentChat ⟨sending.chatWindowDefault, none⟩ (e.chatHave sending))]
    else []

end SyncEngine

/-! ### The node -/

/-- An engine with the counters of its periodic pulls. -/
structure SyncNode (env : Env) (sealing : Sealing) (room : RoomId) where
  engine : SyncEngine env sealing room
  claimRotation : Nat
  forceNextTickPull : Bool
  pullSweepRemaining : Nat

/-- One call from outside, with its sender. -/
inductive Call
  | ingestFrame (sender : PeerId) (f : Frame)
  | publish (f : Frame)
  | onConnect (peer : PeerId)
  | onDisconnect (peer : PeerId)
  | onMessage (sender : PeerId) (msg : RoomMessage)
  | onTick
  | insertRoomKey (epoch : Nat) (key : RoomKey)

/-- The part of a call the engine's state depends on. -/
def Call.input : Call → SyncEngine.Input
  | .ingestFrame _ f => .ingestFrame f
  | .publish f => .publish f
  | .onConnect peer => .onConnect peer
  | .onDisconnect peer => .onDisconnect peer
  | .onMessage _ msg => .onMessage msg.roomId msg.body.toSync
  | .onTick => .onTick
  | .insertRoomKey epoch key => .insertRoomKey epoch key

namespace SyncNode

def opened (engine : SyncEngine env sealing room) : SyncNode env sealing room := ⟨engine, 0, true, 0⟩

variable (sending : Sending env room) (n : SyncNode env sealing room)

/-- A call other than a tick asks for a pull: a peer came or went, a message came in, or something was stored. -/
def stirs : Call → Bool
  | .ingestFrame sender f => (n.engine.ingestFrameSent sending sender f).stirs
  | .publish f => (n.engine.publishSent sending f).stirs
  | .onConnect _ | .onDisconnect _ | .onMessage _ _ => true
  | .onTick | .insertRoomKey _ _ => false

/-- The pull-emitting ticks left when a tick comes to its round: a forced pull arms a full sweep. -/
def sweep : Nat :=
  if n.forceNextTickPull || (n.engine.retriesSent sending).stirs then
    let window := max sending.pullFanoutPeers 1
    max n.pullSweepRemaining (max ((n.engine.onTick.peers.toList.length + window - 1) / window) 1)
  else n.pullSweepRemaining

def nextRotation : Nat := (n.claimRotation + 1) % 2 ^ 64

def onTickOut : List Outgoing :=
  (n.engine.retriesSent sending).out ++ n.engine.onTick.advertised sending n.nextRotation
    (decide (n.sweep sending > 0) || n.engine.onTick.hasPendingSyncWork)

def step (c : Call) : SyncNode env sealing room :=
  match c with
  | .onTick => ⟨n.engine.step c.input, n.nextRotation, false, n.sweep sending - 1⟩
  | _ => { n with engine := n.engine.step c.input, forceNextTickPull := n.forceNextTickPull || n.stirs sending c }

def sends : Call → List Outgoing
  | .ingestFrame sender f => (n.engine.ingestFrameSent sending sender f).out
  | .publish f => (n.engine.publishSent sending f).out
  | .onConnect peer => n.engine.onConnectOut sending n.claimRotation peer
  | .onDisconnect _ => []
  | .onMessage sender msg => n.engine.onMessageOut sending n.claimRotation sender msg
  | .onTick => n.onTickOut sending
  | .insertRoomKey _ _ => []

/-- The messages of every call of a run, call by call. -/
def trace : SyncNode env sealing room → List Call → List (List Outgoing)
  | _, [] => []
  | n, c :: cs => n.sends sending c :: trace (n.step sending c) cs

end SyncNode

end IrohRooms
