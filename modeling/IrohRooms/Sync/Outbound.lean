import IrohRooms.Sync.Served
import IrohRooms.Sync.Talk

/-!
# What a message may carry

Every message an engine sends belongs to its room, and the events in it are events the engine knows: rows of the store,
events of the batch being written, or parked events that were accepted. A chunk of key history names the asking device
alone. Terminal batches, capability proofs and requests for key history come from the node and never from the engine
(`sends_proper`).
-/

namespace IrohRooms

open Journal

variable {env : Env} {sealing : Sealing} {room : RoomId}

/-- What a message to the peer may carry: known events, and key chunks for the peer alone. -/
def ProperBody (I : EngineInvariant env room) (sending : Sending env room) (peer : PeerId) : MessageBody → Prop
  | .events frames => ∀ f ∈ frames, ∃ v, I.Known v ∧ f = ⟨v.eventId, v.event, sending.wireLen v⟩
  | .keyHistory chunks => ∀ c ∈ chunks, ∃ wrapped, c.wrappedKeys = [(peer, wrapped)]
  | .terminalEvents .. | .proveCapability .. | .wantKeyHistory _ => False
  | _ => True

/-- A message of the room that carries what it may. -/
def Proper (I : EngineInvariant env room) (sending : Sending env room) (o : Outgoing) : Prop :=
  o.msg.roomId = room ∧ ProperBody I sending o.peer o.msg.body

def AllProper (I : EngineInvariant env room) (sending : Sending env room) (outs : List Outgoing) : Prop :=
  ∀ o ∈ outs, Proper I sending o

namespace AllProper

variable {I : EngineInvariant env room} {sending : Sending env room} {outs outs' : List Outgoing}

theorem nil : AllProper I sending [] := fun _ h => absurd h List.not_mem_nil

theorem append (h : AllProper I sending outs) (h' : AllProper I sending outs') :
    AllProper I sending (outs ++ outs') := by
  intro o ho
  rcases List.mem_append.mp ho with ho | ho
  · exact h o ho
  · exact h' o ho

end AllProper

namespace SyncEngine

variable {I : EngineInvariant env room} {sending : Sending env room} {origin : Option PeerId}
  {e : SyncEngine env sealing room}

/-! ### The moves of a call -/

theorem fanout_proper {v : ValidatedEvent env room} (hv : I.Known v) :
    AllProper I sending (e.fanout sending origin v) := by
  intro o ho
  obtain ⟨peer, -, rfl⟩ := List.mem_map.mp ho
  refine ⟨rfl, fun f hf => ?_⟩
  exact ⟨v, hv, List.mem_singleton.mp hf⟩

theorem landedOut_proper {landed : ValidatedEvent env room × InsertOutcome} (hv : I.Known landed.1) :
    AllProper I sending (e.landedOut sending origin landed) := by
  unfold landedOut
  split
  · exact fanout_proper hv
  · exact .nil

theorem flushSent_proper (h : ∀ v ∈ e.pendingBatch, I.Known v) :
    AllProper I sending (e.flushSent sending origin).out := by
  unfold flushSent
  split_ifs
  · exact .nil
  · dsimp only
    split
    · intro o ho
      obtain ⟨landed, hlanded, ho⟩ := List.mem_flatMap.mp ho
      exact landedOut_proper (h _ (List.of_mem_zip hlanded).1) o ho
    · exact .nil

theorem storeSent_proper {v : ValidatedEvent env room} (hv : I.Known v) :
    AllProper I sending (e.storeSent sending origin v).out := by
  unfold storeSent
  dsimp only
  split
  · exact landedOut_proper hv
  · exact .nil

theorem chaseOut_proper (targets : List PeerId) (author : IdentityKey) (missing : List EventId) :
    AllProper I sending (e.chaseOut sending targets author missing) := by
  unfold chaseOut requests
  dsimp only
  split_ifs
  · exact .nil
  · intro o ho
    obtain ⟨chunk, -, ho⟩ := List.mem_flatMap.mp ho
    obtain ⟨peer, -, rfl⟩ := List.mem_map.mp ho
    exact ⟨rfl, trivial⟩
  · exact .nil

end SyncEngine

namespace Scope

variable {I : EngineInvariant env room} {S : Scope I} {sending : Sending env room}
  {e f : SyncEngine env sealing room} {outs : List Outgoing}

theorem Talk.proper (h : S.Talk sending e outs f) : AllProper I sending outs := by
  cases h with
  | calm _ => exact .nil
  | flush origin hpending => exact SyncEngine.flushSent_proper hpending
  | store origin hv => exact SyncEngine.storeSent_proper hv
  | chase depth _ _ _ => exact SyncEngine.chaseOut_proper _ _ _

/-- What a story tells is proper. -/
theorem Tells.proper (h : S.Tells sending e outs f) : AllProper I sending outs := by
  induction h with
  | refl => exact .nil
  | tail _ hmove ih => exact ih.append hmove.proper

end Scope

namespace SyncEngine

variable {I : EngineInvariant env room} {sending : Sending env room} {e : SyncEngine env sealing room}

/-! ### Answers -/

/-- The frame of a stored row is that of a known event. -/
theorem frame_known (h : I.Holds e) {id : EventId} {row : Row env room} (hrow : e.store.rows.get? id = some row) :
    ∃ v, I.Known v ∧ sending.frame row = ⟨v.eventId, v.event, sending.wireLen v⟩ :=
  ⟨row.event, I.stored h.store hrow, rfl⟩

theorem emitEvents_proper (peer : PeerId) {frames : List Frame}
    (h : ∀ f ∈ frames, ∃ v, I.Known v ∧ f = ⟨v.eventId, v.event, sending.wireLen v⟩) :
    AllProper I sending (emitEvents room peer frames) := by
  intro o ho
  obtain ⟨batch, hbatch, rfl⟩ := List.mem_map.mp ho
  refine ⟨rfl, fun f hf => h f ?_⟩
  have hflat : (batchFrames frames [] 0).flatten = frames := flatten_batchFrames frames [] 0
  rw [← hflat]
  exact List.mem_flatten.mpr ⟨batch, hbatch, hf⟩

theorem collectWanted_known (h : I.Holds e) (ids : List EventId) {got : List Frame × List EventId}
    (hgot : ∀ f ∈ got.1, ∃ v, I.Known v ∧ f = ⟨v.eventId, v.event, sending.wireLen v⟩) :
    ∀ f ∈ (e.collectWanted sending.toServing ids got).1,
      ∃ v, I.Known v ∧ f = ⟨v.eventId, v.event, sending.wireLen v⟩ := by
  induction ids generalizing got with
  | nil => exact hgot
  | cons id ids ih =>
    unfold collectWanted
    split_ifs
    · exact hgot
    · split
      · rename_i row hrow
        refine ih fun f hf => ?_
        rcases List.mem_append.mp hf with hf | hf
        · exact hgot f hf
        · rw [List.mem_singleton.mp hf]
          exact frame_known h hrow
      · exact ih hgot

theorem framesFromStored_known (h : I.Holds e) {rows : List (Row env room)}
    (hrows : ∀ row ∈ rows, ∃ id, e.store.rows.get? id = some row) :
    ∀ f ∈ sending.framesFromStored rows, ∃ v, I.Known v ∧ f = ⟨v.eventId, v.event, sending.wireLen v⟩ := by
  intro f hf
  obtain ⟨row, hrow, rfl⟩ := List.mem_map.mp (List.mem_of_mem_take hf)
  obtain ⟨id, hid⟩ := hrows row hrow
  exact frame_known h hid

theorem pulled_proper (h : I.Holds e) (sender : PeerId) (body : MessageBody) :
    AllProper I sending (e.pulled sending.toServing sender body) := by
  unfold pulled
  split
  · refine AllProper.append (emitEvents_proper sender (collectWanted_known h _ (by simp))) ?_
    split_ifs
    · exact .nil
    · intro o ho
      rw [List.mem_singleton.mp ho]
      exact ⟨rfl, trivial⟩
  · unfold serveWantMembership
    split
    · exact .nil
    · refine emitEvents_proper sender (framesFromStored_known h fun row hrow => ?_)
      obtain ⟨id, -, hid⟩ := List.mem_filterMap.mp (List.mem_filter.mp ((List.mem_insertionSort _).mp hrow)).1
      exact ⟨id, hid⟩
  · unfold serveWantRecentChat
    refine emitEvents_proper sender (framesFromStored_known h fun row hrow => ?_)
    have hchat := (List.mem_filter.mp ((List.mem_insertionSort _).mp hrow)).1
    have htail := (List.mem_filter.mp (List.mem_of_mem_drop hchat)).1
    exact ⟨row.event.eventId, (EventStore.mem_roomTail.mp (List.mem_of_mem_drop htail)).1⟩
  · exact .nil

theorem keyHistoryMessages_proper (peer : PeerId) (haveEpochs : OrdSet Nat) (held : List (Nat × RoomKey))
    {chunks : List KeyHistoryChunk} (budget : Nat)
    (hchunks : ∀ c ∈ chunks, ∃ wrapped, c.wrappedKeys = [(peer, wrapped)]) :
    AllProper I sending (e.keyHistoryMessages sending peer haveEpochs held chunks budget) := by
  have hmessage : ∀ {cs : List KeyHistoryChunk}, (∀ c ∈ cs, ∃ wrapped, c.wrappedKeys = [(peer, wrapped)]) →
      AllProper I sending [toPeer room peer (.keyHistory cs)] := by
    intro cs hcs o ho
    rw [List.mem_singleton.mp ho]
    exact ⟨rfl, hcs⟩
  have hlast : ∀ {cs : List KeyHistoryChunk}, (∀ c ∈ cs, ∃ wrapped, c.wrappedKeys = [(peer, wrapped)]) →
      AllProper I sending (if cs.isEmpty then [] else [toPeer room peer (.keyHistory cs)]) := by
    intro cs hcs
    split_ifs
    · exact .nil
    · exact hmessage hcs
  induction held generalizing chunks budget with
  | nil => exact hlast hchunks
  | cons one held ih =>
    unfold keyHistoryMessages
    split_ifs with hhave hfull hempty
    · exact ih budget hchunks
    · exact .nil
    · exact hmessage hchunks
    · split
      · exact ih budget hchunks
      · rename_i chunk hchunk
        have hone : ∃ wrapped, chunk.wrappedKeys = [(peer, wrapped)] := by
          unfold buildKeyHistoryChunk at hchunk
          split_ifs at hchunk
          obtain ⟨identity, -, hchunk⟩ := Option.bind_eq_some_iff.mp hchunk
          split_ifs at hchunk
          obtain ⟨wrapped, -, rfl⟩ := Option.map_eq_some_iff.mp hchunk
          exact ⟨wrapped, rfl⟩
        have hgrown : ∀ {cs : List KeyHistoryChunk}, (∀ c ∈ cs, ∃ wrapped, c.wrappedKeys = [(peer, wrapped)]) →
            ∀ c ∈ cs ++ [chunk], ∃ wrapped, c.wrappedKeys = [(peer, wrapped)] := by
          intro cs hcs c hc
          rcases List.mem_append.mp hc with hc | hc
          · exact hcs c hc
          · rw [List.mem_singleton.mp hc]
            exact hone
        have hnone : ∀ c ∈ ([] : List KeyHistoryChunk), ∃ wrapped, c.wrappedKeys = [(peer, wrapped)] := by simp
        -- the message that is cut off, if one is, and the rest with an empty or the grown message
        dsimp only
        by_cases hcut : (!chunks.isEmpty &&
            decide (keyHistoryEnvelopeAllowance + sending.chunkLen chunk > budget)) = true
        · rw [if_pos hcut, if_pos hcut, if_pos hcut]
          refine (hmessage hchunks).append ?_
          split_ifs
          · exact ih _ hnone
          · exact ih _ (hgrown hnone)
        · rw [if_neg hcut, if_neg hcut, if_neg hcut]
          refine AllProper.nil.append ?_
          split_ifs
          · exact ih _ hchunks
          · exact ih _ (hgrown hchunks)

/-! ### Calls -/

theorem handleAdminTipOut_proper (claimRotation : Nat) (tip : Option (EventId × Nat)) :
    AllProper I sending (e.handleAdminTipOut sending claimRotation tip) := by
  unfold handleAdminTipOut
  split
  · split_ifs
    · intro o ho
      obtain ⟨peer, -, rfl⟩ := List.mem_map.mp ho
      exact ⟨rfl, trivial⟩
    · exact .nil
  · exact .nil

theorem receipt_proper (sender : PeerId) (body : MessageBody) : AllProper I sending (e.receipt sender body) := by
  unfold receipt
  split
  · intro o ho
    rw [List.mem_singleton.mp ho]
    exact ⟨rfl, trivial⟩
  · exact .nil

theorem advertised_proper (claimRotation : Nat) (emitPulls : Bool) :
    AllProper I sending (e.advertised sending claimRotation emitPulls) := by
  intro o ho
  obtain ⟨peer, -, ho⟩ := List.mem_flatMap.mp ho
  rcases List.mem_cons.mp ho with rfl | ho
  · exact ⟨rfl, trivial⟩
  · split_ifs at ho
    · simp only [List.mem_cons, List.not_mem_nil, or_false] at ho
      rcases ho with rfl | rfl <;> exact ⟨rfl, trivial⟩
    · cases ho

theorem dispatchedSent_proper (S : Scope I) (h : I.Holds e) (claimRotation : Nat) (sender : PeerId)
    {body : MessageBody} (hframes : ∀ f ∈ body.toSync.frames, I.KnownFrame f) :
    AllProper I sending (e.dispatchedSent sending claimRotation sender body).out := by
  unfold dispatchedSent
  split
  · exact handleAdminTipOut_proper _ _
  · exact (Scope.tells_deliverFrames (S := S) _ _ h hframes).proper
  · exact (Scope.tells_deliverFrames (S := S) _ _ h hframes).proper
  · exact keyHistoryMessages_proper sender _ _ _ (by simp)
  · exact pulled_proper h sender _

theorem dispatched_holds (h : I.Holds e) {msg : SyncMessage}
    (hframes : ∀ f ∈ msg.frames, I.KnownFrame f) : I.Holds (e.dispatched msg) := by
  unfold dispatched
  cases msg with
  | adminTip tip => exact h.handleAdminTip tip
  | events frames => exact List.foldlRecOn _ _ h fun _ hb f hf => hb.deliverFrame (hframes f hf)
  | terminalEvents frames => exact List.foldlRecOn _ _ h fun _ hb f hf => hb.deliverFrame (hframes f hf)
  | keyHistory chunks => exact List.foldlRecOn _ _ h fun _ hb _ _ => hb
  | other => exact h

theorem onMessageOut_proper (S : Scope I) (h : I.Holds e) (claimRotation : Nat) (sender : PeerId) {msg : RoomMessage}
    (hframes : ∀ f ∈ msg.body.toSync.frames, I.KnownFrame f) :
    AllProper I sending (e.onMessageOut sending claimRotation sender msg) := by
  unfold onMessageOut
  split_ifs
  · exact .nil
  · rw [Sent.append_out]
    have hfinal : S.Tells sending (e.dispatched msg.body.toSync) _ _ :=
      Scope.tells_finalize (some sender) (dispatched_holds h hframes)
    exact ((dispatchedSent_proper S h claimRotation sender hframes).append hfinal.proper).append
      (receipt_proper sender _)

theorem onConnectOut_proper (S : Scope I) (claimRotation : Nat) (peer : PeerId) :
    AllProper I sending (e.onConnectOut sending claimRotation peer) := by
  refine AllProper.append ?_ (Scope.tells_retryRestoredPark (S := S) _).proper
  intro o ho
  simp only [List.mem_cons, List.not_mem_nil, or_false] at ho
  rcases ho with rfl | rfl | rfl | rfl
  all_goals exact ⟨rfl, trivial⟩

end SyncEngine

/-- What a node sends is proper, whatever the call, as long as the frames of the call are known. -/
theorem SyncNode.sends_proper {I : EngineInvariant env room} (S : Scope I) {sending : Sending env room}
    {n : SyncNode env sealing room} (h : I.Holds n.engine) {c : Call} (hframes : ∀ f ∈ c.input.frames, I.KnownFrame f) :
    AllProper I sending (n.sends sending c) := by
  cases c with
  | ingestFrame sender f => exact (Scope.tells_ingestFrame (S := S) h (hframes f List.mem_cons_self) sender).proper
  | publish f => exact (Scope.tells_publish (S := S) h (hframes f List.mem_cons_self)).proper
  | onConnect peer => exact SyncEngine.onConnectOut_proper S _ peer
  | onDisconnect peer => exact .nil
  | onMessage sender msg => exact SyncEngine.onMessageOut_proper S h _ sender hframes
  | onTick => exact (Scope.tells_retries (S := S) h).proper.append (SyncEngine.advertised_proper _ _)
  | insertRoomKey epoch key => exact .nil

end IrohRooms
