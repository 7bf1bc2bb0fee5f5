import IrohRooms.Membership.Convergence
import IrohRooms.Store.Rebuild
import IrohRooms.Sync.Outbound

/-!
# Where events come from

An engine makes no events: what it folds, stores, parks or sends was in the frames it was given or in the park it was
restored with (`EngineInvariant.occurring`). A parent it asks for is named by one of these events.
-/

namespace IrohRooms

variable {env : Env} {sealing : Sealing} {room : RoomId} {occurs : EventId → SignedEvent → Prop}

namespace EngineInvariant

theorem fold_occurs {m : RoomMembership env room} {v : ValidatedEvent env room}
    (h : m.Settled ∧ ∀ id e, m.event? id = some e → occurs id e) (hv : occurs v.eventId v.event) :
    (m.ingest v).Settled ∧ ∀ id e, (m.ingest v).event? id = some e → occurs id e := by
  refine ⟨h.1.ingest v, ?_⟩
  intro id e he
  rw [RoomMembership.ingest_event? h.1.wf, Option.or_eq_some_iff] at he
  rcases he with hold | ⟨-, hnew⟩
  · exact h.2 id e hold
  · split_ifs at hnew with hid
    rw [hid, ← Option.some.inj hnew]
    exact hv

theorem rows_occur {s : EventStore env room} {v : ValidatedEvent env room}
    (h : ∀ id w, s.event? id = some w → occurs w.eventId w.event) (hv : occurs v.eventId v.event) :
    ∀ id w, (s.insertInTx v).1.event? id = some w → occurs w.eventId w.event := by
  intro id w hw
  rw [(EventStore.insertInTx_frame s v).2] at hw
  split_ifs at hw
  · rw [← Option.some.inj hw]
    exact hv
  · exact h id w hw

variable (occurs) in
/-- Everything an engine holds occurs. -/
def occurring (env : Env) (room : RoomId) : EngineInvariant env room where
  Known v := occurs v.eventId v.event
  Sound v := occurs v.eventId v.event
  FoldOk m := m.Settled ∧ ∀ id e, m.event? id = some e → occurs id e
  StoreOk s := ∀ id v, s.event? id = some v → occurs v.eventId v.event
  foldNew := ⟨RoomMembership.settled_new, fun _ _ h => nomatch h⟩
  ingest := fold_occurs
  accepted _ hv _ := hv
  storeEmpty _ := fun _ _ h => nomatch h
  scheduled _ h := h
  insertInTx := rows_occur
  stored h hrow := h _ _ (EventStore.event?_eq_some.mpr ⟨_, hrow, rfl⟩)

theorem occurring_holds {e : SyncEngine env sealing room} (h : Reachable occurs e) :
    (occurring occurs env room).Holds e := h.holds (occurring occurs env room) fun _ hv => hv

theorem occurring_frame {f : Frame} (h : occurs f.eventId f.event) : (occurring occurs env room).KnownFrame f := by
  intro v hid hevent
  show occurs v.eventId v.event
  rw [hid, hevent]
  exact h

end EngineInvariant

/-- The parents of the events that occur. -/
def Scope.occurring : Scope (EngineInvariant.occurring occurs env room) where
  Missing ids := ∀ d ∈ ids, ∃ id e, occurs id e ∧ d ∈ e.prevEvents
  buffered {m id id' missing} hm hout := by
    intro d hd
    unfold RoomMembership.outcome at hout
    split at hout
    · cases hout
      cases hd
    · rename_i n hn
      split at hout
      · cases hout
      · cases hout
      · obtain ⟨-, rfl⟩ := Ingest.buffered.inj hout
        refine ⟨id, n.event.event, hm.2 id n.event.event ?_, (List.mem_filter.mp hd).1⟩
        rw [RoomMembership.event?, hn]
        rfl
  sorted h := fun d hd => h d (OrdSet.mem_ofList.mp (OrdSet.mem_toList.mp hd))
  known h := h

/-- The events in a message that is proper occur. -/
theorem ProperBody.frames_occur {sending : Sending env room} {peer : PeerId} {body : MessageBody}
    (h : ProperBody (EngineInvariant.occurring occurs env room) sending peer body) :
    ∀ f ∈ body.toSync.frames, occurs f.eventId f.event := by
  intro f hf
  cases body with
  | events frames =>
    obtain ⟨v, hv, rfl⟩ := h f hf
    exact hv
  | terminalEvents => exact h.elim
  | _ => cases hf

/-- The messages of a call carry events that occur, when the events of the call do. -/
theorem SyncNode.sends_occurring {sending : Sending env room} {n : SyncNode env sealing room}
    (h : Reachable occurs n.engine) {c : Call} (hframes : ∀ f ∈ c.input.frames, occurs f.eventId f.event) :
    AllProper (EngineInvariant.occurring occurs env room) sending (n.sends sending c) :=
  n.sends_proper Scope.occurring (EngineInvariant.occurring_holds h)
    fun f hf => EngineInvariant.occurring_frame (hframes f hf)

end IrohRooms
