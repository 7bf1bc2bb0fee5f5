import IrohRooms.Sync.Completeness
import IrohRooms.Sync.Stored

/-!
# Between calls

At the end of a call nothing is pending and the parked frames still wait, so what `Synced` says becomes an equality:
the stored ids are the accepted ones, and the posture is that of the present fold and store (`AtRest`). It holds after
every call of a run in which each event that has to wait has room in the park (`Roomy`).
-/

namespace IrohRooms

variable {env : Env} {sealing : Sealing} {room : RoomId}

namespace SyncEngine

variable {e f : SyncEngine env sealing room}

/-- Nothing is pending and the stored events are the accepted ones. -/
structure AtRest (e : SyncEngine env sealing room) : Prop where
  synced : Synced (fun _ => False) e
  idle : e.pendingBatch = []
  stored : ∀ id, e.store.contains id = true ↔ e.fold.isAccepted id = true

theorem AtRest.current (h : e.AtRest) : e.Current := h.synced.current fun id => (h.stored id).mpr

/-! ### The end of a call -/

theorem Synced.rest (h : Synced (fun _ => False) e) (hidle : e.pendingBatch = [])
    (hparked : ∀ id, e.park.contains id = true → e.fold.result id = none) : e.AtRest := by
  refine ⟨h, hidle, fun id => ⟨h.stored id, fun hacc => ?_⟩⟩
  rcases h.accepted id hacc not_false with hstored | ⟨v, hv, -⟩ | hpark
  · exact hstored
  · rw [hidle] at hv
    exact absurd hv List.not_mem_nil
  · exact absurd (hparked id hpark) (RoomMembership.result_ne_none_of_accepted hacc)

theorem Synced.finalizeDelivery (h : Synced (fun _ => False) e) : e.finalizeDelivery.AtRest := by
  obtain ⟨hflushed, hnil⟩ := h.flushStoreBatch
  obtain ⟨hwoken, hbatch, hparked⟩ := hflushed.wakePark
  have hidle : e.flushStoreBatch.wakePark.pendingBatch = [] := hbatch.trans hnil
  unfold SyncEngine.finalizeDelivery
  rw [SyncEngine.flushStoreBatch, if_pos hidle]
  exact hwoken.rest hidle hparked

/-! ### The calls that deliver nothing -/

theorem AtRest.untouched (h : e.AtRest) (hu : Untouched e f) (hpark : f.park = e.park)
    (hcurrent : e.Current → f.Current) : f.AtRest := by
  refine ⟨h.synced.untouched hu ?_ ?_ hcurrent, hu.pendingBatch.trans h.idle, ?_⟩
  · rw [hpark]
    exact h.synced.keyed
  · rw [hpark]
    exact fun _ hid => hid
  · rw [hu.store, hu.fold]
    exact h.stored

theorem AtRest.quiet (h : e.AtRest) (hq : Quiet e f) (hpark : f.park = e.park) : f.AtRest :=
  h.untouched hq.toUntouched hpark hq.current

theorem armSuspectTip_untouched (e : SyncEngine env sealing room) (id : EventId) (seq : Nat) :
    Untouched e (e.armSuspectTip id seq) ∧ (e.armSuspectTip id seq).park = e.park := by
  unfold armSuspectTip
  dsimp only
  split_ifs
  · exact ⟨⟨rfl, rfl, rfl, rfl, rfl, rfl⟩, rfl⟩
  · exact ⟨⟨rfl, rfl, rfl, rfl, rfl, rfl⟩, rfl⟩

theorem armSuspectTip_suspectTip (e : SyncEngine env sealing room) (id : EventId) (seq : Nat) :
    ∃ attempts, (e.armSuspectTip id seq).suspectTip = some ⟨id, seq, attempts⟩ := by
  unfold armSuspectTip
  dsimp only
  split_ifs with hfresh
  · exact ⟨_, rfl⟩
  · cases ht : e.suspectTip with
    | none =>
      rw [ht] at hfresh
      exact absurd rfl hfresh
    | some t =>
      rw [ht] at hfresh
      simp only [ne_eq, Bool.or_eq_true, decide_eq_true_eq, not_or, not_not] at hfresh
      obtain ⟨rfl, rfl⟩ := hfresh
      exact ⟨t.attempts, rfl⟩

theorem handleAdminTip_untouched (e : SyncEngine env sealing room) (tip : Option (EventId × Nat)) :
    Untouched e (e.handleAdminTip tip) ∧ (e.handleAdminTip tip).park = e.park := by
  have hrecompute : ∀ f : SyncEngine env sealing room, Untouched e f ∧ f.park = e.park →
      Untouched e f.recomputeCompleteness ∧ f.recomputeCompleteness.park = e.park :=
    fun f h => ⟨⟨h.1.config, h.1.fold, h.1.projection, h.1.store, h.1.retry, h.1.pendingBatch⟩, h.2⟩
  unfold handleAdminTip
  apply hrecompute
  split
  · split_ifs
    · exact e.armSuspectTip_untouched _ _
    · exact ⟨⟨rfl, rfl, rfl, rfl, rfl, rfl⟩, rfl⟩
  · exact ⟨⟨rfl, rfl, rfl, rfl, rfl, rfl⟩, rfl⟩

theorem handleAdminTip_current (e : SyncEngine env sealing room) (tip : Option (EventId × Nat)) :
    (e.handleAdminTip tip).Current := recomputeCompleteness_current _

theorem AtRest.expireSuspectTip (h : e.AtRest) : e.expireSuspectTip.AtRest := by
  unfold SyncEngine.expireSuspectTip
  split
  · exact h
  · rename_i t ht
    split_ifs
    · exact h.untouched ⟨rfl, rfl, rfl, rfl, rfl, rfl⟩ rfl fun _ => recomputeCompleteness_current _
    · refine h.untouched ⟨rfl, rfl, rfl, rfl, rfl, rfl⟩ rfl fun hc => ?_
      -- the tip is the same one, with a tick less
      have hbehind : ({ e with suspectTip := some { t with attempts := t.attempts - 1 } } :
          SyncEngine env sealing room).stillBehind = e.stillBehind := by
        unfold stillBehind
        rw [ht]
        rfl
      refine ⟨fun hno => ?_, ?_, ?_⟩
      · rw [hbehind] at hno
        have hnone := hc.suspect hno
        rw [ht] at hnone
        cases hnone
      · rw [hbehind]
        exact hc.completeness
      · rw [hbehind]
        exact hc.failClosed

theorem retryStore_of_empty (h : e.storeRetry = .empty) : e.retryStore = e := by
  unfold retryStore retryOrder
  rw [h]
  rfl

theorem AtRest.retryPark (h : e.AtRest) : e.retryPark.AtRest := by
  obtain ⟨hwoken, hbatch, hparked⟩ := h.synced.wakePark
  have hrest := hwoken.rest (hbatch.trans h.idle) hparked
  obtain ⟨hquiet, hpark⟩ := foldl_quiet
    (fun (e : SyncEngine env sealing room) (p : IdentityKey × Nat × List EventId) => e.chase_quiet p.1 p.2.1 p.2.2)
    (e.wakePark.park.values.map fun p => (p.author, p.depth, p.missing.toList)) e.wakePark
  exact hrest.quiet hquiet hpark

theorem AtRest.onTick (h : e.AtRest) : e.onTick.AtRest := by
  have hrefilled : e.refillTokens.AtRest := h.quiet (.books ..) rfl
  have hexpired := hrefilled.expireSuspectTip
  unfold SyncEngine.onTick
  rw [retryStore_of_empty hexpired.synced.retry]
  obtain ⟨hquiet, hpark⟩ := e.refillTokens.expireSuspectTip.retryPark.retryRestoredPark_quiet
  exact hexpired.retryPark.quiet hquiet hpark

theorem AtRest.onConnect (h : e.AtRest) (peer : PeerId) : (e.onConnect peer).AtRest := by
  have hjoined : AtRest ({ e with peers := e.peers.add peer } : SyncEngine env sealing room) :=
    h.quiet (.books ..) rfl
  obtain ⟨hquiet, hpark⟩ := retryRestoredPark_quiet ({ e with peers := e.peers.add peer } : SyncEngine env sealing room)
  exact hjoined.quiet hquiet hpark

/-! ### The calls that deliver -/

/-- If the frame is delivered, its event has room. -/
def RoomyFrame (e : SyncEngine env sealing room) (f : Frame) : Prop :=
  e.dedupCache.contains f.eventId = false → ∀ v, validate env ⟨room, none⟩ f.eventId f.event = .ok v → e.Roomy v

/-- Every frame of a list has room in the state its predecessors leave. -/
def RoomyFrames (e : SyncEngine env sealing room) : List Frame → Prop
  | [] => True
  | f :: fs => e.RoomyFrame f ∧ (e.deliverFrame f).RoomyFrames fs

/-- Every event a call delivers has room. -/
def RoomyCall (e : SyncEngine env sealing room) : Input → Prop
  | .publish f => ∀ v, validate env ⟨room, none⟩ f.eventId f.event = .ok v → e.Roomy v
  | .ingestFrame f => e.RoomyFrame f
  | .onMessage msgRoom msg => msgRoom = room → e.RoomyFrames msg.frames
  | _ => True

theorem Synced.deliverFrame (h : Synced (fun _ => False) e) {frame : Frame} (hroomy : e.RoomyFrame frame) :
    Synced (fun _ => False) (e.deliverFrame frame) := by
  unfold SyncEngine.deliverFrame
  split_ifs with hseen
  · exact h
  · split
    · rename_i v hv
      exact h.deliver (hroomy (Bool.not_eq_true _ ▸ hseen) v hv)
    · exact h

theorem Synced.deliverFrames (frames : List Frame) (h : Synced (fun _ => False) e) (hroomy : e.RoomyFrames frames) :
    Synced (fun _ => False) (frames.foldl SyncEngine.deliverFrame e) := by
  induction frames generalizing e with
  | nil => exact h
  | cons frame frames ih => exact ih (h.deliverFrame hroomy.1) hroomy.2

theorem AtRest.onMessage (h : e.AtRest) {msgRoom : RoomId} {msg : SyncMessage}
    (hroomy : msgRoom = room → e.RoomyFrames msg.frames) : (e.onMessage msgRoom msg).AtRest := by
  unfold SyncEngine.onMessage
  split_ifs with hroom
  · exact h
  · have hframes := hroomy (not_not.mp hroom)
    apply Synced.finalizeDelivery
    split
    · rename_i tip
      obtain ⟨hu, hpark⟩ := e.handleAdminTip_untouched tip
      exact (h.untouched hu hpark fun _ => e.handleAdminTip_current tip).synced
    · exact h.synced.deliverFrames _ hframes
    · exact h.synced.deliverFrames _ hframes
    · rename_i chunks
      obtain ⟨hquiet, hpark⟩ := adoptKeyHistory_quiet chunks e
      exact h.synced.quiet hquiet hpark
    · exact h.synced

theorem AtRest.publish (h : e.AtRest) {frame : Frame}
    (hroomy : ∀ v, validate env ⟨room, none⟩ frame.eventId frame.event = .ok v → e.Roomy v)
    {e' : SyncEngine env sealing room} (hok : e.publish frame = .ok e') : e'.AtRest := by
  obtain ⟨v, hv, rfl⟩ := publish_ok hok
  exact (h.synced.deliver (hroomy v hv)).finalizeDelivery

/-- One call. -/
theorem AtRest.step (h : e.AtRest) {input : Input} (hroomy : e.RoomyCall input) : (e.step input).AtRest := by
  cases input with
  | ingestFrame frame => exact (h.synced.deliverFrame hroomy).finalizeDelivery
  | publish frame =>
    simp only [SyncEngine.step]
    split
    · rename_i e' hok
      exact h.publish hroomy hok
    · exact h
  | onConnect peer => exact h.onConnect peer
  | onDisconnect peer => exact h.quiet (.books ..) rfl
  | onMessage msgRoom msg => exact h.onMessage hroomy
  | onTick => exact h.onTick
  | insertRoomKey epoch key => exact h.quiet (.books ..) rfl

/-! ### Runs -/

/-- Every call of a run delivers events that have room in the state before it. -/
def RoomyRun (e : SyncEngine env sealing room) : List Input → Prop
  | [] => True
  | input :: inputs => e.RoomyCall input ∧ (e.step input).RoomyRun inputs

theorem AtRest.steps (h : e.AtRest) {inputs : List Input} (hroomy : e.RoomyRun inputs) :
    (inputs.foldl SyncEngine.step e).AtRest := by
  induction inputs generalizing e with
  | nil => exact h
  | cons input inputs ih => exact ih (h.step hroomy.1) hroomy.2

/-- An engine opened on a store whose rows the fold accepts is at rest; the parked frames are kept under their ids. -/
theorem restore_atRest {config : SyncConfig} {seed : Option SigningKey} {store : EventStore env room}
    {tables : SyncTables env room} (hwrites : store.NeverFails)
    (hparked : ∀ id p, tables.parked.get? id = some p → p.event.eventId = id)
    (hstored : ∀ id, store.contains id = true →
      (RoomMembership.fromEvents (store.roomTail.map Row.event)).isAccepted id = true) :
    (restore config seed store tables : SyncEngine env sealing room).AtRest := by
  have hheld : ∀ id, (RoomMembership.fromEvents (store.roomTail.map Row.event)).nodes.contains id = true →
      store.contains id = true := by
    intro id hid
    obtain ⟨event, hevent⟩ := RoomMembership.contains_iff_event?.mp hid
    rw [RoomMembership.fromEvents_event?] at hevent
    obtain ⟨v, hv, -⟩ := Option.map_eq_some_iff.mp hevent
    obtain ⟨row, hrow, rfl⟩ := List.mem_map.mp (List.mem_of_find?_eq_some hv)
    have hid' : row.event.eventId = id := by simpa using List.find?_some hv
    rw [← hid']
    exact EventStore.contains_iff.mpr ⟨row, (EventStore.mem_roomTail.mp hrow).1⟩
  have hexact : ∀ id, store.contains id = true ↔
      (RoomMembership.fromEvents (store.roomTail.map Row.event)).isAccepted id = true := fun id =>
    ⟨hstored id, fun hacc => hheld id (RoomMembership.contains_of_result (RoomMembership.result_ne_none_of_accepted hacc))⟩
  refine ⟨⟨RoomMembership.settled_fromEvents _, rfl, fun _ => rfl, hwrites, rfl, hparked, hstored, ?_, ?_, ?_, ?_⟩, rfl,
    hexact⟩
  · exact fun v hv => absurd hv List.not_mem_nil
  · exact fun id hacc _ => Or.inl ((hexact id).mpr hacc)
  · intro id hwait _
    exact absurd (hstored id (hheld id hwait.1)) fun hacc => RoomMembership.not_isWaiting_of_accepted hacc hwait
  · exact fun _ => recomputeCompleteness_current _

/-- The same over a store of a room, which the engine then keeps as one. -/
theorem opened_ok {W : Universe} {config : SyncConfig} {seed : Option SigningKey} {store : EventStore env room}
    {tables : SyncTables env room} (hwrites : store.NeverFails) (hstoreOk : W.StoreOk store)
    (hparked : ∀ id p, tables.parked.get? id = some p → p.event.eventId = id ∧ W.Occurs id p.event.event)
    (hstored : ∀ id, store.contains id = true →
      (RoomMembership.fromEvents (store.roomTail.map Row.event)).isAccepted id = true)
    (hopen : openEngine config seed store tables = .ok e) : e.AtRest ∧ (W.invariant env room).Holds e := by
  rw [openEngine_ok hopen]
  refine ⟨restore_atRest hwrites (fun id p hp => (hparked id p hp).1) hstored, ?_⟩
  exact EngineInvariant.Holds.restore hstoreOk (fun {id p} hp => Universe.known_of_filed (hparked id p hp)) config seed

theorem knownFrames_of_occurs {W : Universe} {inputs : List Input}
    (h : ∀ input ∈ inputs, ∀ frame ∈ input.frames, W.Occurs frame.eventId frame.event) :
    ∀ input ∈ inputs, ∀ frame ∈ input.frames, (W.invariant env room).KnownFrame frame := by
  exact fun input hi frame hf => Universe.knownFrame_of_occurs (h input hi frame hf)

/-- Over a store whose writes succeed, and whose rows the fold accepted at the start, every run in which each event
that has to wait has room in the park ends every call with the accepted ids stored and no others. -/
theorem stored_iff_accepted {config : SyncConfig} {seed : Option SigningKey} {store : EventStore env room}
    {tables : SyncTables env room} (hwrites : store.NeverFails)
    (hparked : ∀ id p, tables.parked.get? id = some p → p.event.eventId = id)
    (hstored : ∀ id, store.contains id = true →
      (RoomMembership.fromEvents (store.roomTail.map Row.event)).isAccepted id = true)
    (hopen : openEngine config seed store tables = .ok e) {inputs : List Input} (hroomy : e.RoomyRun inputs)
    (id : EventId) :
    (inputs.foldl SyncEngine.step e).store.contains id = true ↔
      (inputs.foldl SyncEngine.step e).fold.isAccepted id = true := by
  have hrest : e.AtRest := by
    rw [openEngine_ok hopen]
    exact restore_atRest hwrites hparked hstored
  exact (hrest.steps hroomy).stored id

end SyncEngine

/-! ### The worked room -/

namespace Toy

/-- A default configuration with a small park has room. -/
theorem hasRoom_of_small {e : SyncEngine toyEnv Toy.sealing Toy.room}
    (h : e.config = .standard ∧ e.park.entries.length < 1024 ∧ ∀ d ∈ e.backfillDepth.values, d ≤ 1024)
    (v : ValidatedEvent toyEnv Toy.room) : e.HasRoom v := by
  obtain ⟨hconfig, hpark, hdepth⟩ := h
  have hvalues : (e.park.values.filter fun p => p.author == v.event.senderId).length ≤ e.park.entries.length := by
    refine (List.length_filter_le _ _).trans ?_
    rw [OrdMap.values, List.length_map]
  refine Or.inr ⟨?_, ?_, ?_⟩
  · rw [hconfig]
    cases hd : e.backfillDepth.get? v.eventId with
    | none => exact Nat.zero_le _
    | some d => exact hdepth d (OrdMap.mem_values.mpr ⟨_, hd⟩)
  · rw [hconfig]
    exact hpark
  · rw [hconfig]
    exact hvalues.trans_lt hpark

/-- The genesis, a message whose parent is missing, and the parent. -/
def lateParent : List SyncEngine.Input :=
  [(1, genesis), (3, message 1 "b" [2]), (2, message 1 "a" [1])].map fun p => .ingestFrame (frame p)

theorem lateParent_roomy : opened.RoomyRun lateParent := by
  refine ⟨fun _ v _ _ _ => ?_, fun _ v _ _ _ => ?_, fun _ v _ _ _ => ?_, trivial⟩
  · exact hasRoom_of_small (by decide) v
  · exact hasRoom_of_small (by decide +kernel) v
  · exact hasRoom_of_small (by decide +kernel) v

/-- An engine whose park holds one frame. -/
def tight : SyncEngine toyEnv Toy.sealing Toy.room :=
  .restore { SyncConfig.standard with maxParkedTotal := 1 } none (.openEmpty []) ⟨.empty, none, .empty, .empty⟩

/-- The genesis, two messages whose parent is missing, and the parent. -/
def crowded : List SyncEngine.Input :=
  [(1, genesis), (3, message 1 "b" [2]), (4, message 1 "c" [2]), (2, message 1 "a" [1])].map fun p =>
    .ingestFrame (frame p)

end Toy

namespace SyncEngine

/-- The parked message is stored when its parent arrives. -/
theorem stored_iff_accepted_lateParent :
    (Toy.lateParent.foldl SyncEngine.step Toy.opened).store.contains (Bytes32.ofNat 3) = true ↔
      (Toy.lateParent.foldl SyncEngine.step Toy.opened).fold.isAccepted (Bytes32.ofNat 3) = true := by
  have hopen : openEngine .standard none (.openEmpty []) ⟨.empty, none, .empty, .empty⟩ = .ok Toy.opened := rfl
  refine stored_iff_accepted ?_ ?_ ?_ hopen Toy.lateParent_roomy (Bytes32.ofNat 3)
  · exact fun _ hok => absurd hok List.not_mem_nil
  · exact fun _ _ hp => nomatch hp
  · exact fun _ hid => nomatch hid

/-- The second message evicts the first from the park but not from the fold: it is accepted and never stored. -/
theorem evicted_never_stored :
    openEngine { SyncConfig.standard with maxParkedTotal := 1 } none (.openEmpty []) ⟨.empty, none, .empty, .empty⟩ =
      .ok Toy.tight ∧ Toy.tight.store.NeverFails ∧
    (Toy.crowded.foldl SyncEngine.step Toy.tight).fold.isAccepted (Bytes32.ofNat 3) = true ∧
    (Toy.crowded.foldl SyncEngine.step Toy.tight).store.contains (Bytes32.ofNat 3) = false := by
  refine ⟨rfl, fun _ hok => absurd hok List.not_mem_nil, ?_, ?_⟩
  · decide +kernel
  · decide +kernel

end SyncEngine

end IrohRooms
