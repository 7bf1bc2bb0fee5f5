import IrohRooms.Sync.Carried
import IrohRooms.Sync.Rest

/-!
# Calls in which nothing is accepted

A delivery changes who is denied access only by storing an event or by chasing a tip. `Idle` follows an engine through
a call, whatever it delivers: as long as the fold accepts nothing new, every write is of a stored event, so the rows,
the snapshot and the posture stay as they were at the start.
-/

namespace IrohRooms

variable {env : Env} {sealing : Sealing} {room : RoomId}

theorem EventStore.insertAllInTx_stored {s : EventStore env room} {vs : List (ValidatedEvent env room)}
    (h : ∀ v ∈ vs, s.contains v.eventId = true) :
    EventStore.insertAllInTx s vs = (s, vs.map fun _ => .duplicate) := by
  induction vs with
  | nil => rfl
  | cons v vs ih =>
    have hdup := insertInTx_duplicate (h v List.mem_cons_self)
    simp only [EventStore.insertAllInTx, hdup, ih fun w hw => h w (List.mem_cons_of_mem _ hw), List.map_cons]

namespace SyncEngine

variable {e f : SyncEngine env sealing room}

/-! ### Writing what is stored -/

theorem applyLanded_duplicate (hr : e.storeRetry = .empty) (v : ValidatedEvent env room) :
    Quiet e (e.applyLanded (v, .duplicate)) := by
  refine ⟨⟨rfl, rfl, rfl, rfl, ?_, rfl⟩, rfl, rfl, rfl⟩
  show e.storeRetry.erase v.eventId = e.storeRetry
  rw [hr]
  rfl

theorem foldl_applyLanded_duplicate (l : List (ValidatedEvent env room × InsertOutcome))
    (hl : ∀ p ∈ l, p.2 = .duplicate) (hr : e.storeRetry = .empty) : Quiet e (l.foldl applyLanded e) := by
  induction l generalizing e with
  | nil => exact .refl e
  | cons p l ih =>
    have hp : p = (p.1, .duplicate) := Prod.ext rfl (hl p List.mem_cons_self)
    have hone : Quiet e (e.applyLanded p) := by
      rw [hp]
      exact applyLanded_duplicate hr p.1
    exact hone.trans (ih (fun q hq => hl q (List.mem_cons_of_mem _ hq)) (hone.retry.trans hr))

/-- Flushing a batch of stored events writes no row. -/
theorem flushStoreBatch_stored (hw : e.store.NeverFails) (hr : e.storeRetry = .empty)
    (hb : ∀ v ∈ e.pendingBatch, e.store.contains v.eventId = true) :
    Quiet ({ e with pendingBatch := [], store := e.flushStoreBatch.store } : SyncEngine env sealing room)
      e.flushStoreBatch ∧ e.flushStoreBatch.store.rows = e.store.rows ∧ e.flushStoreBatch.store.NeverFails := by
  by_cases hnil : e.pendingBatch = []
  · rw [flushStoreBatch, if_pos hnil]
    exact ⟨⟨⟨rfl, rfl, rfl, rfl, rfl, hnil⟩, rfl, rfl, rfl⟩, rfl, hw⟩
  · obtain ⟨hok, hfuture, hrows⟩ := hw.beginWrite
    have hstored : ∀ v ∈ e.pendingBatch, e.store.beginWrite.1.contains v.eventId = true := by
      intro v hv
      rw [EventStore.contains, hrows]
      exact hb v hv
    have hresult : e.store.insertAllOutcomes e.pendingBatch =
        (e.store.beginWrite.1, some (e.pendingBatch.map fun _ => .duplicate)) := by
      unfold EventStore.insertAllOutcomes
      dsimp only
      rw [if_pos hok, EventStore.insertAllInTx_stored hstored]
    have hflush : e.flushStoreBatch =
        (e.pendingBatch.zip (e.pendingBatch.map fun _ => InsertOutcome.duplicate)).foldl applyLanded
          ({ e with pendingBatch := [], store := e.store.beginWrite.1 } : SyncEngine env sealing room) := by
      rw [flushStoreBatch, if_neg hnil]
      dsimp only
      rw [hresult]
    have hquiet := foldl_applyLanded_duplicate
      (e := ({ e with pendingBatch := [], store := e.store.beginWrite.1 } : SyncEngine env sealing room))
      (e.pendingBatch.zip (e.pendingBatch.map fun _ => InsertOutcome.duplicate))
      (fun p hp => by
        obtain ⟨v, -, hv⟩ := List.mem_map.mp (List.of_mem_zip hp).2
        exact hv.symm) hr
    rw [← hflush] at hquiet
    have hstore : e.flushStoreBatch.store = e.store.beginWrite.1 := hquiet.store
    refine ⟨?_, ?_, ?_⟩
    · rw [hstore]
      exact hquiet
    · rw [hstore]
      exact hrows
    · rw [hstore]
      exact hfuture

theorem storeAndFanout_stored (hw : e.store.NeverFails) (hr : e.storeRetry = .empty) {v : ValidatedEvent env room}
    (hv : e.store.contains v.eventId = true) :
    Quiet ({ e with store := (e.storeAndFanout v).store } : SyncEngine env sealing room) (e.storeAndFanout v) ∧
      (e.storeAndFanout v).store.rows = e.store.rows := by
  obtain ⟨hok, -, hrows⟩ := hw.beginWrite
  have hdup : e.store.beginWrite.1.insertInTx v = (e.store.beginWrite.1, .duplicate) := by
    refine if_pos ?_
    rw [EventStore.contains, hrows]
    exact hv
  have hresult : e.store.insert v = (e.store.beginWrite.1, some .duplicate) := by
    unfold EventStore.insert
    dsimp only
    rw [if_pos hok, hdup]
  have hstore : e.storeAndFanout v =
      applyLanded ({ e with store := e.store.beginWrite.1 } : SyncEngine env sealing room) (v, .duplicate) := by
    unfold storeAndFanout
    dsimp only
    rw [hresult]
  have hquiet := applyLanded_duplicate
    (e := ({ e with store := e.store.beginWrite.1 } : SyncEngine env sealing room)) hr v
  rw [← hstore] at hquiet
  have hsame : (e.storeAndFanout v).store = e.store.beginWrite.1 := hquiet.store
  refine ⟨?_, ?_⟩
  · rw [hsame]
    exact hquiet
  · rw [hsame]
    exact hrows

/-! ### The engine during such a call -/

/-- Since `e` nothing was accepted, and who is denied is decided as it was. -/
structure Idle (e f : SyncEngine env sealing room) : Prop where
  generation : f.membershipProjection.foldGeneration = f.fold.membershipProjectionGeneration
  kept : ∀ id, e.fold.isAccepted id = true → f.fold.isAccepted id = true
  accepted : ∀ id, f.fold.isAccepted id = true → f.store.contains id = true
  pending : ∀ v ∈ f.pendingBatch, f.store.contains v.eventId = true
  rows : f.store.rows = e.store.rows
  projection : f.membershipProjection = e.membershipProjection
  posture : SamePosture e f

/-- Since `e` nothing was accepted, or something was; the writes succeed. -/
structure Tracked (e f : SyncEngine env sealing room) : Prop where
  settled : f.fold.Settled
  writes : f.store.NeverFails
  retry : f.storeRetry = .empty
  idle : Idle e f ∨ ∃ id, f.fold.isAccepted id = true ∧ e.fold.isAccepted id = false

theorem AtRest.tracked (h : e.AtRest) : Tracked e e := by
  refine ⟨h.synced.settled, h.synced.writes, h.synced.retry, Or.inl ⟨h.synced.generation, fun _ hid => hid,
    fun id => (h.stored id).mpr, fun v hv => ?_, rfl, rfl, rfl, rfl, rfl⟩⟩
  exact (h.stored v.eventId).mpr (h.synced.pending v hv)

variable {start : SyncEngine env sealing room}

theorem Tracked.quiet (h : Tracked start e) (hq : Quiet e f) : Tracked start f := by
  refine ⟨?_, ?_, hq.retry.trans h.retry, h.idle.imp (fun hidle => ⟨?_, ?_, ?_, ?_, ?_,
    hq.projection.trans hidle.projection, hq.posture.1.trans hidle.posture.1,
    hq.posture.2.1.trans hidle.posture.2.1, hq.posture.2.2.trans hidle.posture.2.2⟩) fun hstirs => ?_⟩
  · rw [hq.fold]
    exact h.settled
  · rw [hq.store]
    exact h.writes
  · rw [hq.fold, hq.projection]
    exact hidle.generation
  · rw [hq.fold]
    exact hidle.kept
  · rw [hq.fold, hq.store]
    exact hidle.accepted
  · rw [hq.pendingBatch, hq.store]
    exact hidle.pending
  · rw [hq.store]
    exact hidle.rows
  · rw [hq.fold]
    exact hstirs

/-- A write whose events are stored already, as long as nothing was accepted. -/
theorem Tracked.lands (h : Tracked start e) {vs : List (ValidatedEvent env room)} (hl : Lands vs e f)
    (hstored : Idle start e → f.store.rows = e.store.rows ∧ SamePosture e f ∧ ∀ v ∈ f.pendingBatch, v ∈ e.pendingBatch) :
    Tracked start f := by
  refine ⟨?_, hl.writes, hl.retry, h.idle.imp (fun hidle => ?_) fun hstirs => ?_⟩
  · rw [hl.fold]
    exact h.settled
  · obtain ⟨hrows, hposture, hpending⟩ := hstored hidle
    have hcontains : ∀ id, f.store.contains id = e.store.contains id := by
      intro id
      unfold EventStore.contains
      rw [hrows]
    refine ⟨?_, ?_, fun id hid => ?_, fun v hv => ?_, hrows.trans hidle.rows, hl.projection.trans hidle.projection,
      hposture.1.trans hidle.posture.1, hposture.2.1.trans hidle.posture.2.1, hposture.2.2.trans hidle.posture.2.2⟩
    · rw [hl.fold, hl.projection]
      exact hidle.generation
    · rw [hl.fold]
      exact hidle.kept
    · rw [hl.fold] at hid
      exact (hcontains id).trans (hidle.accepted id hid)
    · exact (hcontains v.eventId).trans (hidle.pending v (hpending v hv))
  · rw [hl.fold]
    exact hstirs

theorem Tracked.flushStoreBatch (h : Tracked start e) : Tracked start e.flushStoreBatch := by
  obtain ⟨hl, hnil⟩ := flushStoreBatch_lands h.writes h.retry
  refine h.lands hl fun hidle => ?_
  obtain ⟨hquiet, hrows, -⟩ := flushStoreBatch_stored h.writes h.retry hidle.pending
  refine ⟨hrows, hquiet.posture, ?_⟩
  rw [hnil]
  exact fun v hv => absurd hv List.not_mem_nil

theorem Tracked.storeAndFanout (h : Tracked start e) {v : ValidatedEvent env room}
    (hv : e.fold.isAccepted v.eventId = true) : Tracked start (e.storeAndFanout v) := by
  obtain ⟨hl, hsame⟩ := storeAndFanout_lands h.writes h.retry v
  refine h.lands hl fun hidle => ?_
  obtain ⟨hquiet, hrows⟩ := storeAndFanout_stored h.writes h.retry (hidle.accepted _ hv)
  refine ⟨hrows, hquiet.posture, ?_⟩
  rw [hsame]
  exact fun w hw => hw

theorem Tracked.ingestFold (h : Tracked start e) (v : ValidatedEvent env room) : Tracked start (e.ingestFold v) := by
  have hparts : (e.ingestFold v).store = e.store ∧ (e.ingestFold v).storeRetry = e.storeRetry := by
    rw [ingestFold_eq]
    exact ⟨rfl, rfl⟩
  refine ⟨?_, ?_, hparts.2.trans h.retry, ?_⟩
  · rw [ingestFold_fold]
    exact h.settled.ingest v
  · rw [hparts.1]
    exact h.writes
  rcases h.idle with hidle | ⟨id, hid, hold⟩
  · by_cases hnew : ∃ id, (e.fold.ingest v).isAccepted id = true ∧ e.fold.isAccepted id = false
    · obtain ⟨id, hacc, hold⟩ := hnew
      refine Or.inr ⟨id, ?_, ?_⟩
      · rw [ingestFold_fold]
        exact hacc
      · by_contra hstart
        rw [hidle.kept id (Bool.not_eq_false _ ▸ hstart)] at hold
        cases hold
    · have hsame : ∀ id, (e.fold.ingest v).isAccepted id = true → e.fold.isAccepted id = true := by
        intro id hacc
        by_contra hold
        exact hnew ⟨id, hacc, Bool.not_eq_true _ ▸ hold⟩
      have hgen : (e.fold.ingest v).membershipProjectionGeneration = e.fold.membershipProjectionGeneration := by
        by_contra hmoved
        exact hnew ((h.settled.ingest_advances v).moved hmoved)
      left
      rw [ingestFold_eq, if_pos (hgen.trans hidle.generation.symm)]
      exact ⟨hidle.generation.trans hgen.symm, fun id hid => h.settled.ingest_isAccepted v (hidle.kept id hid),
        fun id hid => hidle.accepted id (hsame id hid), hidle.pending, hidle.rows, hidle.projection, hidle.posture⟩
  · refine Or.inr ⟨id, ?_, hold⟩
    rw [ingestFold_fold]
    exact h.settled.ingest_isAccepted v hid

/-! ### Delivering -/

theorem Tracked.queue (h : Tracked start e) {v : ValidatedEvent env room} (hv : e.fold.isAccepted v.eventId = true) :
    Tracked start ({ e with
      backfillDepth := e.backfillDepth.erase v.eventId
      pendingBatch := e.pendingBatch ++ [v] } : SyncEngine env sealing room) := by
  refine ⟨h.settled, h.writes, h.retry, h.idle.imp_left fun hidle => ?_⟩
  refine ⟨hidle.generation, hidle.kept, hidle.accepted, fun w hw => ?_, hidle.rows, hidle.projection, hidle.posture⟩
  rcases List.mem_append.mp hw with hold | hnew
  · exact hidle.pending w hold
  · rw [List.mem_singleton.mp hnew]
    exact hidle.accepted _ hv

theorem tracked_carried (start : SyncEngine env sealing room) : Carried (fun _ => True) (Tracked start) where
  parked _ _ := trivial
  books h hbooks := h.quiet hbooks.toQuiet
  ingest h _ := h.ingestFold _
  queue h _ hout := (h.ingestFold _).queue (RoomMembership.outcome_accepted hout)
  promote {e v id id' flags} h _ hout := by
    have hevicted := (h.ingestFold v).quiet (evictParked_reparks (K := fun _ => True) _ id).toQuiet
    exact hevicted.storeAndFanout (RoomMembership.outcome_accepted hout)
  flush h := h.flushStoreBatch

/-- A message that is no tip, whatever it delivers. -/
theorem AtRest.onMessage_tracked (h : e.AtRest) (msgRoom : RoomId) {msg : SyncMessage} (hmsg : ∀ tip, msg ≠ .adminTip tip) :
    Tracked e (e.onMessage msgRoom msg) := by
  have hplain : (Input.onMessage msgRoom msg).Plain room := by
    unfold Input.Plain
    split
    · rename_i heq
      cases heq
    · rename_i tip heq
      cases heq
      exact absurd rfl (hmsg tip)
    · trivial
  exact (tracked_carried e).step_plain h.tracked hplain fun _ _ _ _ _ => trivial

/-! ### A park that the fold knows -/

/-- The fold is `m` and holds every parked frame, and the writes succeed. -/
structure Known (m : RoomMembership env room) (e : SyncEngine env sealing room) : Prop where
  fold : e.fold = m
  held : ∀ id p, e.park.get? id = some p → m.nodes.contains p.event.eventId = true
  writes : e.store.NeverFails
  retry : e.storeRetry = .empty

variable {m : RoomMembership env room}

theorem Known.lands (h : Known m e) {vs : List (ValidatedEvent env room)} (hl : Lands vs e f) : Known m f := by
  refine ⟨hl.fold.trans h.fold, ?_, hl.writes, hl.retry⟩
  rw [hl.park]
  exact h.held

theorem Known.wakeOne {st : SyncEngine env sealing room × Bool} (h : Known m st.1) (id : EventId) :
    Known m (SyncEngine.wakeOne st id).1 := by
  unfold SyncEngine.wakeOne
  split
  · exact h
  · rename_i p hp
    have hfolded : Known m (st.1.ingestFold p.event) := by
      have hsame : st.1.fold.ingest p.event = m := by
        rw [h.fold, RoomMembership.ingest, if_pos (h.held id p hp)]
      rw [ingestFold_eq]
      exact ⟨hsame, h.held, h.writes, h.retry⟩
    have hevicted : Known m ((st.1.ingestFold p.event).evictParked id) := by
      refine ⟨hfolded.fold, fun j q hq => ?_, hfolded.writes, hfolded.retry⟩
      rw [SyncEngine.evictParked, OrdMap.get?_erase] at hq
      split_ifs at hq
      exact hfolded.held j q hq
    dsimp only
    split
    · exact hevicted.lands (storeAndFanout_lands hevicted.writes hevicted.retry p.event).1
    · exact hevicted
    · exact hfolded

theorem Known.wakeParkLoop (fuel : Nat) (h : Known m e) : Known m (SyncEngine.wakeParkLoop fuel e) := by
  induction fuel generalizing e with
  | zero => exact h
  | succ fuel ih =>
    have hpass : Known m (e.park.keys.foldl SyncEngine.wakeOne (e, false)).1 :=
      List.foldlRecOn (motive := fun (st : SyncEngine env sealing room × Bool) => Known m st.1) _ _ h
        fun _ hst id _ => hst.wakeOne id
    unfold SyncEngine.wakeParkLoop
    dsimp only
    split_ifs
    · exact ih hpass
    · exact hpass

theorem Known.finalizeDelivery (h : Known m e) : Known m e.finalizeDelivery := by
  have hflushed := h.lands (flushStoreBatch_lands h.writes h.retry).1
  have hwoken := Known.wakeParkLoop (e.flushStoreBatch.park.entries.length + 1) hflushed
  exact hwoken.lands (flushStoreBatch_lands hwoken.writes hwoken.retry).1

end SyncEngine

end IrohRooms
