import IrohRooms.Sync.Stored
import IrohRooms.Sync.Suspicion

/-!
# What a delivery is made of

Whatever it delivers, a call takes the engine through a few kinds of steps: it lets the fold ingest an event, queues an
accepted one, stores a promoted one, commits the batch, and keeps the books of the park. A property that survives each
of them survives the call (`Carried`).
-/

namespace IrohRooms

variable {env : Env} {sealing : Sealing} {room : RoomId}

namespace SyncEngine

variable {e f : SyncEngine env sealing room} {K : ValidatedEvent env room → Prop}

/-! ### The books of the park -/

/-- Nothing but the books differs, and what was parked anew is an event of `K`. -/
structure Reparks (K : ValidatedEvent env room → Prop) (e f : SyncEngine env sealing room) : Prop extends Quiet e f where
  parked : ∀ id p, f.park.get? id = some p → (∃ id', e.park.get? id' = some p) ∨ K p.event

theorem Reparks.of_park (h : Quiet e f) (hpark : f.park = e.park) : Reparks K e f :=
  ⟨h, fun id _ hp => Or.inl ⟨id, hpark ▸ hp⟩⟩

theorem Reparks.refl (e : SyncEngine env sealing room) : Reparks K e e := .of_park (.refl e) rfl

theorem Reparks.trans {g : SyncEngine env sealing room} (h : Reparks K e f) (h' : Reparks K f g) : Reparks K e g := by
  refine ⟨h.toQuiet.trans h'.toQuiet, fun id p hp => ?_⟩
  rcases h'.parked id p hp with ⟨id', hp'⟩ | hnew
  · exact h.parked id' p hp'
  · exact Or.inr hnew

theorem evictParked_reparks (e : SyncEngine env sealing room) (id : EventId) : Reparks K e (e.evictParked id) := by
  refine ⟨.books .., fun j p hp => ?_⟩
  rw [SyncEngine.evictParked, OrdMap.get?_erase] at hp
  split_ifs at hp
  exact Or.inl ⟨j, hp⟩

theorem enforceTotal_reparks (fuel : Nat) (e : SyncEngine env sealing room) : Reparks K e (enforceTotal fuel e) := by
  induction fuel generalizing e with
  | zero => exact .refl e
  | succ fuel ih =>
    unfold enforceTotal
    split_ifs
    · split
      · rename_i id _
        exact (e.evictParked_reparks id).trans (ih _)
      · exact .refl e
    · exact .refl e

theorem enforceAuthor_reparks (e : SyncEngine env sealing room) (author : IdentityKey) :
    Reparks K e (e.enforceAuthor author) := by
  unfold enforceAuthor
  split_ifs
  · split
    · exact e.evictParked_reparks _
    · exact .refl e
  · exact .refl e

theorem parkFrame_reparks (e : SyncEngine env sealing room) {v : ValidatedEvent env room} (hv : K v) (depth : Nat)
    (missing : List EventId) : Reparks K e (e.parkFrame v depth missing) := by
  unfold parkFrame
  split_ifs
  · exact .refl e
  · have hcapped : Reparks K e _ := (enforceTotal_reparks (e.park.entries.length + 1) e).trans
      (enforceAuthor_reparks (enforceTotal (e.park.entries.length + 1) e) v.event.senderId)
    refine hcapped.trans ⟨.books .., fun id p hp => ?_⟩
    dsimp only at hp
    rw [OrdMap.get?_insert] at hp
    split_ifs at hp
    · rw [← Option.some.inj hp]
      exact Or.inr hv
    · exact Or.inl ⟨id, hp⟩

theorem onBuffered_reparks (e : SyncEngine env sealing room) {v : ValidatedEvent env room} (hv : K v)
    (missing : List EventId) : Reparks K e (e.onBuffered v missing) := by
  unfold onBuffered
  dsimp only
  split_ifs
  · exact .refl e
  · exact .refl e
  · have hparked := e.parkFrame_reparks hv ((e.backfillDepth.get? v.eventId).getD 0) missing
    split
    · exact hparked
    · obtain ⟨hquiet, hpark⟩ := chase_quiet (e.parkFrame v ((e.backfillDepth.get? v.eventId).getD 0) missing)
        (Parked.author ‹_›) ((e.backfillDepth.get? v.eventId).getD 0) missing
      exact hparked.trans (.of_park hquiet hpark)

/-! ### The steps -/

/-- A property kept by every step of a delivery of events of `K`. -/
structure Carried (K : ValidatedEvent env room → Prop) (P : SyncEngine env sealing room → Prop) : Prop where
  parked : ∀ {e : SyncEngine env sealing room} {id p}, P e → e.park.get? id = some p → K p.event
  books : ∀ {e f : SyncEngine env sealing room}, P e → Reparks K e f → P f
  ingest : ∀ {e : SyncEngine env sealing room} {v}, P e → K v → P (e.ingestFold v)
  queue : ∀ {e : SyncEngine env sealing room} {v id flags}, P e → K v →
    (e.ingestFold v).fold.outcome v.eventId = .accepted id flags →
    P { e.ingestFold v with
      backfillDepth := (e.ingestFold v).backfillDepth.erase v.eventId
      pendingBatch := (e.ingestFold v).pendingBatch ++ [v] }
  promote : ∀ {e : SyncEngine env sealing room} {v id id' flags}, P e → K v →
    (e.ingestFold v).fold.outcome v.eventId = .accepted id' flags →
    P (((e.ingestFold v).evictParked id).storeAndFanout v)
  flush : ∀ {e : SyncEngine env sealing room}, P e → P e.flushStoreBatch

namespace Carried

variable {P : SyncEngine env sealing room → Prop} (h : Carried K P)

include h

theorem wakeOne {st : SyncEngine env sealing room × Bool} (hst : P st.1) (id : EventId) :
    P (SyncEngine.wakeOne st id).1 := by
  unfold SyncEngine.wakeOne
  split
  · exact hst
  · rename_i p hp
    have hknown := h.parked hst hp
    dsimp only
    split
    · rename_i hout
      exact h.promote hst hknown hout
    · exact h.books (h.ingest hst hknown) (evictParked_reparks _ id)
    · exact h.ingest hst hknown

theorem wakeParkLoop (fuel : Nat) (he : P e) : P (SyncEngine.wakeParkLoop fuel e) := by
  induction fuel generalizing e with
  | zero => exact he
  | succ fuel ih =>
    have hpass : P (e.park.keys.foldl SyncEngine.wakeOne (e, false)).1 :=
      List.foldlRecOn (motive := fun st : SyncEngine env sealing room × Bool => P st.1) _ _ he
        fun _ hst id _ => h.wakeOne hst id
    unfold SyncEngine.wakeParkLoop
    dsimp only
    split_ifs
    · exact ih hpass
    · exact hpass

theorem deliver (he : P e) {v : ValidatedEvent env room} (hv : K v) : P (e.deliver v) := by
  unfold SyncEngine.deliver
  split_ifs
  · exact he
  · have hfolded := h.ingest he hv
    dsimp only
    split
    · rename_i hout
      have hqueued := h.queue he hv hout
      split_ifs
      · exact h.flush hqueued
      · exact hqueued
    · exact h.books (h.flush hfolded) (onBuffered_reparks _ hv _)
    · refine h.flush (h.books hfolded (.of_park ?_ rfl))
      exact .books ..

/-- Every event a frame may decode to is one of `K`. -/
theorem deliverFrame (he : P e) {frame : Frame}
    (hframe : ∀ v : ValidatedEvent env room, v.eventId = frame.eventId → v.event = frame.event → K v) :
    P (e.deliverFrame frame) := by
  unfold SyncEngine.deliverFrame
  split_ifs
  · exact he
  · split
    · rename_i v hv
      obtain ⟨hid, hevent⟩ := validate_ok hv
      exact h.deliver he (hframe v hid hevent)
    · exact he

theorem finalizeDelivery (he : P e) : P e.finalizeDelivery := h.flush (h.wakeParkLoop _ (h.flush he))

/-- A call other than a tick or a tip of the room. -/
theorem step_plain (he : P e) {input : Input} (hplain : input.Plain room)
    (hframes : ∀ frame ∈ input.frames, ∀ v : ValidatedEvent env room, v.eventId = frame.eventId →
      v.event = frame.event → K v) : P (e.step input) := by
  cases input with
  | ingestFrame frame => exact h.finalizeDelivery (h.deliverFrame he (hframes frame List.mem_cons_self))
  | publish frame =>
    simp only [SyncEngine.step]
    split
    · rename_i e' hok
      obtain ⟨v, hv, rfl⟩ := publish_ok hok
      obtain ⟨hid, hevent⟩ := validate_ok hv
      exact h.finalizeDelivery (h.deliver he (hframes frame List.mem_cons_self v hid hevent))
    · exact he
  | onConnect peer =>
    have hjoined : P ({ e with peers := e.peers.add peer } : SyncEngine env sealing room) :=
      h.books he (.of_park (.books ..) rfl)
    obtain ⟨hquiet, hpark⟩ :=
      retryRestoredPark_quiet ({ e with peers := e.peers.add peer } : SyncEngine env sealing room)
    exact h.books hjoined (.of_park hquiet hpark)
  | onDisconnect peer => exact h.books he (.of_park (.books ..) rfl)
  | onMessage msgRoom msg =>
    have hdelivered : ∀ frames : List Frame, (∀ frame ∈ frames, ∀ v : ValidatedEvent env room,
        v.eventId = frame.eventId → v.event = frame.event → K v) → P (frames.foldl SyncEngine.deliverFrame e) :=
      fun frames hknown => List.foldlRecOn _ _ he fun _ hst frame hf => h.deliverFrame hst (hknown frame hf)
    simp only [SyncEngine.step, SyncEngine.onMessage]
    split_ifs with hroom
    · exact he
    · apply h.finalizeDelivery
      cases msg with
      | adminTip tip => exact absurd hplain hroom
      | events frames => exact hdelivered frames hframes
      | terminalEvents frames => exact hdelivered frames hframes
      | keyHistory chunks =>
        obtain ⟨hquiet, hpark⟩ := adoptKeyHistory_quiet chunks e
        exact h.books he (.of_park hquiet hpark)
      | other => exact he
  | onTick => exact absurd hplain id
  | insertRoomKey epoch key => exact h.books he (.of_park (.books ..) rfl)

end Carried

end SyncEngine

end IrohRooms
