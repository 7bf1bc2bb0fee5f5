import IrohRooms.Sync.Suspicion

/-!
# Messages and answers

The messages peers exchange, and what the engine sends. A pull is answered to its sender out of the store, and the
answers are computed here as the engine computes them. What a delivery sends besides (accepted events to the other
peers, requests for missing ones) is described by its addressees: it goes to connected peers alone. The bytes of a
stored event are not modelled, only their number.
-/

namespace IrohRooms

/-- The bounded chat window of a request: the newest `maxCount`, not older than `sinceMs` if given. -/
structure Window where
  maxCount : Nat
  sinceMs : Option Nat
  deriving DecidableEq, Repr

inductive MessageBody
  | adminTip (tip : Option (EventId × Nat))
  | heads (heads : List EventId)
  | wantEvents (ids : List EventId)
  | wantMembership (held : List EventId)
  | wantRecentChat (window : Window) (held : List EventId)
  | events (frames : List Frame)
  | terminalEvents (frames : List Frame) (ids : List EventId) (nonce : ShortId)
  | eventsConfirmed (ids : List EventId) (nonce : ShortId)
  | notFound (ids : List EventId)
  | proveCapability (inviteId capabilitySecret : ShortId)
  | wantKeyHistory (haveEpochs : OrdSet Nat)
  | keyHistory (chunks : List KeyHistoryChunk)

/-- A message of a room. -/
structure RoomMessage where
  roomId : RoomId
  body : MessageBody

/-- A message and the peer it goes to; `fanout` marks the push of a freshly accepted event. -/
structure Outgoing where
  peer : PeerId
  msg : RoomMessage
  fanout : Bool

namespace MessageBody

/-- The part of a message the receiver's state depends on. -/
def toSync : MessageBody → SyncMessage
  | .adminTip tip => .adminTip tip
  | .events frames => .events frames
  | .terminalEvents frames _ _ => .terminalEvents frames
  | .keyHistory chunks => .keyHistory chunks
  | _ => .other

/-- It carries room events. -/
def isContent : MessageBody → Bool
  | .events _ | .terminalEvents _ _ _ => true
  | _ => false

/-- It asks for room events. -/
def isPull : MessageBody → Bool
  | .wantEvents _ | .wantMembership _ | .wantRecentChat _ _ => true
  | _ => false

end MessageBody

/-- The bounds of an answer, and the number of bytes of a stored event. -/
structure Serving (env : Env) (room : RoomId) where
  responseMaxFrames : Nat
  chatWindowDefault : Nat
  chatWindowMax : Nat
  wireLen : ValidatedEvent env room → Nat

variable {env : Env} {sealing : Sealing} {room : RoomId}

namespace Serving

variable (serving : Serving env room)

def frame (row : Row env room) : Frame := ⟨row.event.eventId, row.event.event, serving.wireLen row.event⟩

/-- A requested count, clamped; zero asks for the default. -/
def effectiveWindow (requested : Nat) : Nat :=
  min (if requested = 0 then serving.chatWindowDefault else requested) serving.chatWindowMax

/-- The frames of rows, up to the cap. -/
def framesFromStored (rows : List (Row env room)) : List Frame :=
  (rows.map serving.frame).take serving.responseMaxFrames

end Serving

/-! ### Reads of the store -/

namespace EventStore

variable (s : EventStore env room)

def bySender (sender : IdentityKey) : List (Row env room) :=
  (s.rows.values.filter fun row => row.event.event.senderId == sender).insertionSort fun a b => a.key ≤ b.key

def parentsOf (id : EventId) : List EventId := ((s.event? id).map fun v => v.event.prevEvents).getD []

/-- The rows no stored event cites. -/
def heads : List EventId := s.rows.keys.filter fun id => (s.childrenOf id).isEmpty

/-- Enter a parent that is new and admitted, and put it on the stack. -/
def pushParent (admits : EventId → Bool) (st : OrdSet EventId × List EventId) (parent : EventId) :
    OrdSet EventId × List EventId :=
  if !decide (parent ∈ st.1) && admits parent then (st.1.add parent, parent :: st.2) else st

/-- Close a set under admitted parents, from a stack of ids in it. -/
def closeUnder (admits : EventId → Bool) : Nat → OrdSet EventId × List EventId → OrdSet EventId
  | 0, st => st.1
  | fuel + 1, st =>
    match st.2 with
    | [] => st.1
    | id :: stack => closeUnder admits fuel ((s.parentsOf id).foldl (pushParent admits) (st.1, stack))

/-- The set with its admitted ancestry; an edge enters an id at most once. -/
def ancestry (admits : EventId → Bool) (ids : OrdSet EventId) : OrdSet EventId :=
  s.closeUnder admits (ids.toList.length + s.edgeCount + 1) (ids, ids.toList.reverse)

end EventStore

/-- A column value, the missing one first. -/
def columnRank (value : Option Nat) : Nat := value.elim 0 (· + 1)

/-- The order of an answer: `lamport`, `admin_seq`, id. -/
def Row.causalKey (row : Row env room) : Nat ×ₗ Nat ×ₗ EventId :=
  toLex (columnRank row.lamport, toLex (columnRank row.adminSeq, row.event.eventId))

def causalSort (rows : List (Row env room)) : List (Row env room) :=
  rows.insertionSort fun a b => a.causalKey ≤ b.causalKey

/-- A chat event, or an envelope of one, that is not the admin's. -/
def Row.isChatClass (row : Row env room) : Bool :=
  (SyncEngine.encryptable row.event.event.eventType || row.event.event.eventType == .contentEncrypted) &&
    row.adminSeq.isNone

def Row.advisorySince (row : Row env room) (sinceMs : Option Nat) : Bool :=
  sinceMs.all fun since => decide (row.event.event.createdAt ≥ since)

namespace SyncEngine

/-! ### Batches -/

def toPeer (room : RoomId) (peer : PeerId) (body : MessageBody) : Outgoing := ⟨peer, ⟨room, body⟩, false⟩

/-- Cut frames into batches within the byte budget; a frame that exceeds it goes alone. -/
def batchFrames : List Frame → List Frame → Nat → List (List Frame)
  | [], batch, _ => if batch.isEmpty then [] else [batch]
  | f :: frames, batch, batchCost =>
    let cost := f.frameLen + eventsPerFrameOverhead
    if !batch.isEmpty && decide (batchCost + cost > maxFrameBytes - eventsEnvelopeAllowance)
    then batch :: batchFrames frames [f] cost
    else batchFrames frames (batch ++ [f]) (batchCost + cost)

def emitEvents (room : RoomId) (peer : PeerId) (frames : List Frame) : List Outgoing :=
  (batchFrames frames [] 0).map fun batch => toPeer room peer (.events batch)

variable (serving : Serving env room) (e : SyncEngine env sealing room)

/-! ### Pulls -/

/-- The frames of the stored ids and the ids that are not stored, until the cap. -/
def collectWanted : List EventId → List Frame × List EventId → List Frame × List EventId
  | [], got => got
  | id :: ids, got =>
    if got.1.length ≥ serving.responseMaxFrames then got
    else match e.store.rows.get? id with
      | some row => collectWanted ids (got.1 ++ [serving.frame row], got.2)
      | none => collectWanted ids (got.1, got.2 ++ [id])

def serveWantEvents (peer : PeerId) (ids : List EventId) : List Outgoing :=
  let got := e.collectWanted serving ids ([], [])
  emitEvents room peer got.1 ++ if got.2 = [] then [] else [toPeer room peer (.notFound got.2)]

/-- The membership events and the admin's. -/
def authorizationClassIds : OrdSet EventId :=
  let typed := [EventType.roomCreated, .memberInvited, .memberJoined, .memberLeft, .memberRemoved].flatMap fun ty =>
    (e.store.byType ty).map fun row => row.event.eventId
  let authored := e.snapshot.admin.elim [] fun admin => (e.store.bySender admin).map fun row => row.event.eventId
  OrdSet.ofList (typed ++ authored)

def authorizationClosureIds : OrdSet EventId := e.store.ancestry e.store.contains e.authorizationClassIds

/-- What an ancestry claim covers; `none` when it names every head, and so covers everything. -/
def coveredByClaim (held : List EventId) : Option (OrdSet EventId) :=
  let frontier := OrdSet.ofList (held.filter e.store.contains)
  if frontier.toList = [] then some .empty
  else if e.store.heads ≠ [] ∧ e.store.heads.all fun h => decide (h ∈ frontier) then none
  else some (e.store.ancestry (fun _ => true) frontier)

def serveWantMembership (peer : PeerId) (held : List EventId) : List Outgoing :=
  match e.coveredByClaim held with
  | none => []
  | some covered =>
    let ids := e.authorizationClosureIds.toList.filter fun id => !decide (id ∈ covered)
    -- a row above a hole of the store is left out: its ancestry cannot be served
    let stored := (ids.filterMap e.store.rows.get?).filter fun row => row.lamport.isSome
    emitEvents room peer (serving.framesFromStored (causalSort stored))

/-- The last `n` of a list. -/
def lastOf {α : Type} (n : Nat) (l : List α) : List α := l.drop (l.length - n)

def serveWantRecentChat (peer : PeerId) (window : Window) (held : List EventId) : List Outgoing :=
  let tail := lastOf serving.chatWindowMax e.store.roomTail
  let chat := lastOf (serving.effectiveWindow window.maxCount) (tail.filter Row.isChatClass)
  let selected := chat.filter fun row =>
    !held.contains row.event.eventId && row.advisorySince window.sinceMs
  emitEvents room peer (serving.framesFromStored (causalSort selected))

/-- A presented secret is that of an invite on the log. -/
def capabilityProofMatches (inviteId secret : ShortId) : Bool :=
  (e.store.byType .memberInvited).any fun row =>
    match row.event.event.content with
    | .memberInvited inv => inv.inviteId == inviteId && inv.capabilityHash == env.capabilityHash room inviteId secret
    | _ => false

/-! ### What a call sends -/

/-- The answer to a pull. -/
def pulled (sender : PeerId) : MessageBody → List Outgoing
  | .wantEvents ids => e.serveWantEvents serving sender ids
  | .wantMembership held => e.serveWantMembership serving sender held
  | .wantRecentChat window held => e.serveWantRecentChat serving sender window held
  | _ => []

/-- The receipt of a terminal batch: the requested ids that are stored afterwards. -/
def receipt (sender : PeerId) : MessageBody → List Outgoing
  | .terminalEvents _ ids nonce => [toPeer room sender (.eventsConfirmed (ids.filter e.store.contains) nonce)]
  | _ => []

/-- A message a delivery may send: an accepted event, or a request for what is missing, to a connected peer. -/
def Spreads (o : Outgoing) : Prop :=
  o.peer ∈ e.peers ∧ o.msg.roomId = room ∧
    ((o.fanout = true ∧ ∃ f, o.msg.body = .events [f]) ∨
      (o.fanout = false ∧ ((∃ ids, o.msg.body = .wantEvents ids) ∨ ∃ held, o.msg.body = .wantMembership held)))

/-- The messages `onMessage` returns: none for another room's message. -/
def Answers (sender : PeerId) (msg : RoomMessage) (outs : List Outgoing) : Prop :=
  (msg.roomId ≠ room → outs = []) ∧
  (msg.roomId = room → ∃ keys spread, outs = e.pulled serving sender msg.body ++ keys ++ spread ++
      (e.onMessage msg.roomId msg.body.toSync).receipt sender msg.body ∧
    (∀ o ∈ keys, ∃ chunks, o = toPeer room sender (.keyHistory chunks)) ∧ ∀ o ∈ spread, e.Spreads o)

/-- The messages `onConnect` returns: the handshake, then requests for what the restored park misses. -/
def Greets (peer : PeerId) (outs : List Outgoing) : Prop :=
  ∃ heads held chat backfill, outs = [toPeer room peer (.adminTip e.store.adminChainTip),
      toPeer room peer (.heads heads), toPeer room peer (.wantMembership held),
      toPeer room peer (.wantRecentChat ⟨serving.chatWindowDefault, none⟩ chat)] ++ backfill ∧
    ∀ o ∈ backfill, o.peer ∈ e.peers.add peer ∧ o.fanout = false ∧ ∃ ids, o.msg = ⟨room, .wantEvents ids⟩

/-- A message of the periodic round: a tip or a pull, to a connected peer. -/
def Advertises (o : Outgoing) : Prop :=
  o.peer ∈ e.peers ∧ o.msg.roomId = room ∧ o.fanout = false ∧ ((∃ tip, o.msg.body = .adminTip tip) ∨
    (∃ held, o.msg.body = .wantMembership held) ∨ ∃ window held, o.msg.body = .wantRecentChat window held)

end SyncEngine

namespace SyncEngine

variable {e : SyncEngine env sealing room} {serving : Serving env room}

theorem emitEvents_peer {peer : PeerId} {frames : List Frame} {o : Outgoing} (h : o ∈ emitEvents room peer frames) :
    o.peer = peer := by
  obtain ⟨batch, -, rfl⟩ := List.mem_map.mp h
  rfl

/-- A pull is answered to its sender; nothing else is answered out of the store. -/
theorem pulled_peer {sender : PeerId} {body : MessageBody} {o : Outgoing} (h : o ∈ e.pulled serving sender body) :
    o.peer = sender ∧ body.isPull = true := by
  unfold pulled at h
  split at h
  · refine ⟨?_, rfl⟩
    unfold serveWantEvents at h
    rcases List.mem_append.mp h with hevents | hmissing
    · exact emitEvents_peer hevents
    · split_ifs at hmissing
      · cases hmissing
      · rw [List.mem_singleton.mp hmissing]
        rfl
  · refine ⟨?_, rfl⟩
    unfold serveWantMembership at h
    split at h
    · cases h
    · exact emitEvents_peer h
  · exact ⟨emitEvents_peer h, rfl⟩
  · cases h

/-- Room events go to connected peers and to the senders of pulls. -/
theorem Answers.content_to {sender : PeerId} {msg : RoomMessage} {outs : List Outgoing}
    (h : e.Answers serving sender msg outs) {o : Outgoing} (ho : o ∈ outs) (hcontent : o.msg.body.isContent = true) :
    o.peer ∈ e.peers ∨ (o.peer = sender ∧ msg.roomId = room ∧ msg.body.isPull = true) := by
  by_cases hroom : msg.roomId = room
  · obtain ⟨keys, spread, rfl, hkeys, hspread⟩ := h.2 hroom
    rcases List.mem_append.mp ho with ho | hreceipt
    · rcases List.mem_append.mp ho with ho | ho
      · rcases List.mem_append.mp ho with hpull | hkey
        · exact Or.inr ⟨(pulled_peer hpull).1, hroom, (pulled_peer hpull).2⟩
        · obtain ⟨chunks, rfl⟩ := hkeys o hkey
          cases hcontent
      · exact Or.inl (hspread o ho).1
    · unfold receipt at hreceipt
      split at hreceipt
      · rw [List.mem_singleton.mp hreceipt] at hcontent
        cases hcontent
      · cases hreceipt
  · rw [h.1 hroom] at ho
    cases ho

/-- A handshake carries no room events. -/
theorem Greets.no_content {peer : PeerId} {outs : List Outgoing} (h : e.Greets serving peer outs) {o : Outgoing}
    (ho : o ∈ outs) : o.msg.body.isContent = false := by
  obtain ⟨heads, held, chat, backfill, rfl, hbackfill⟩ := h
  rcases List.mem_append.mp ho with ho | ho
  · simp only [List.mem_cons, List.not_mem_nil, or_false] at ho
    rcases ho with rfl | rfl | rfl | rfl
    all_goals rfl
  · obtain ⟨-, -, ids, hmsg⟩ := hbackfill o ho
    rw [hmsg]
    rfl

/-! ### The connected peers -/

theorem finalizeDelivery_peers (e : SyncEngine env sealing room) : e.finalizeDelivery.peers = e.peers :=
  e.kept_self.finalizeDelivery.peers

theorem handleAdminTip_peers (e : SyncEngine env sealing room) (tip : Option (EventId × Nat)) :
    (e.handleAdminTip tip).peers = e.peers := by
  unfold handleAdminTip armSuspectTip
  cases tip with
  | none => rfl
  | some t =>
    dsimp only
    split_ifs
    all_goals rfl

theorem onMessage_peers (e : SyncEngine env sealing room) (msgRoom : RoomId) (msg : SyncMessage) :
    (e.onMessage msgRoom msg).peers = e.peers := by
  unfold onMessage
  split_ifs
  · rfl
  · rw [finalizeDelivery_peers]
    cases msg with
    | adminTip tip => exact e.handleAdminTip_peers tip
    | events frames => exact (Kept.foldl (fun f hf => hf.deliverFrame f) frames e.kept_self).peers
    | terminalEvents frames => exact (Kept.foldl (fun f hf => hf.deliverFrame f) frames e.kept_self).peers
    | keyHistory chunks =>
      obtain ⟨ring, hring⟩ := e.adoptKeyHistory_eq chunks
      show (chunks.foldl adoptKeyHistoryChunk e).peers = e.peers
      rw [hring]
    | other => rfl

theorem publish_peers {f : Frame} {e' : SyncEngine env sealing room} (h : e.publish f = .ok e') :
    e'.peers = e.peers := by
  obtain ⟨v, -, rfl⟩ := publish_ok h
  rw [finalizeDelivery_peers]
  exact (e.kept_self.deliver v).peers

theorem onTick_peers (e : SyncEngine env sealing room) : e.onTick.peers = e.peers := by
  have hexpired : e.refillTokens.expireSuspectTip.peers = e.peers := by
    unfold expireSuspectTip
    split
    · rfl
    · split_ifs
      all_goals rfl
  rw [← hexpired]
  exact (kept_self _).retryStore.retryPark.retryRestoredPark.peers

theorem onConnect_peers (e : SyncEngine env sealing room) (peer : PeerId) :
    (e.onConnect peer).peers = e.peers.add peer :=
  (kept_self { e with peers := e.peers.add peer }).retryRestoredPark.peers

theorem mem_onDisconnect_peers {peer p : PeerId} (h : p ∈ (e.onDisconnect peer).peers) : p ∈ e.peers := by
  rw [OrdSet.mem_def] at h ⊢
  unfold onDisconnect at h
  rw [OrdMap.get?_erase] at h
  split_ifs at h
  · cases h
  · exact h

end SyncEngine

end IrohRooms
