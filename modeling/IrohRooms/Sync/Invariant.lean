import IrohRooms.Sync.Engine

/-!
# Invariants of the engine

What an invariant has to say about the parts of an engine, and the few facts that carry it through a step
(`EngineInvariant`). Every function of the engine keeps `Holds`, one lemma each in the order of the engine, so
`Reachable.holds` gives it in every state a node can be in, across restarts.
-/

namespace IrohRooms

/-- A property of delivered events, of stored ones, of the fold and of the store, kept by ingesting and inserting. -/
structure EngineInvariant (env : Env) (room : RoomId) where
  Known : ValidatedEvent env room → Prop
  Sound : ValidatedEvent env room → Prop
  FoldOk : RoomMembership env room → Prop
  StoreOk : EventStore env room → Prop
  foldNew : FoldOk .new
  ingest : ∀ {m v}, FoldOk m → Known v → FoldOk (m.ingest v)
  accepted : ∀ {m v id flags}, FoldOk m → Known v → (m.ingest v).outcome v.eventId = .accepted id flags → Sound v
  storeEmpty : ∀ writes, StoreOk (.openEmpty writes)
  scheduled : ∀ {s : EventStore env room} (writes), StoreOk s → StoreOk { s with writes := writes }
  insertInTx : ∀ {s v}, StoreOk s → Sound v → StoreOk (s.insertInTx v).1
  stored : ∀ {s id row}, StoreOk s → s.rows.get? id = some row → Known row.event

variable {env : Env} {sealing : Sealing} {room : RoomId}

/-- A publish that succeeds delivers the valid event of its frame. -/
theorem SyncEngine.publish_ok {e e' : SyncEngine env sealing room} {f : Frame} (h : e.publish f = .ok e') :
    ∃ v : ValidatedEvent env room, validate env ⟨room, none⟩ f.eventId f.event = .ok v ∧
      e' = (e.deliver v).finalizeDelivery := by
  unfold SyncEngine.publish at h
  split_ifs at h
  split at h
  · cases h
  · rename_i v hv
    split at h
    · cases h
    · exact ⟨v, hv, (Except.ok.inj h).symm⟩

namespace EngineInvariant

variable (I : EngineInvariant env room)

/-- The invariant of the parts that carry events; the projection is that of some fold, maybe an earlier one. -/
structure Parts (fold : RoomMembership env room) (store : EventStore env room) (snapshot : MembershipSnapshot)
    (park : OrdMap EventId (Parked env room)) (storeRetry : OrdMap EventId (StoreRetry env room))
    (pendingBatch : List (ValidatedEvent env room)) : Prop where
  fold : I.FoldOk fold
  store : I.StoreOk store
  projection : ∃ m, I.FoldOk m ∧ snapshot = m.snapshot
  park : ∀ {id p}, park.get? id = some p → I.Known p.event
  retry : ∀ {id r}, storeRetry.get? id = some r → I.Sound r.event
  pending : ∀ v ∈ pendingBatch, I.Sound v

def Holds (e : SyncEngine env sealing room) : Prop :=
  I.Parts e.fold e.store e.snapshot e.park e.storeRetry e.pendingBatch

/-- Every event a frame may decode to is known. -/
def KnownFrame (f : Frame) : Prop :=
  ∀ v : ValidatedEvent env room, v.eventId = f.eventId → v.event = f.event → I.Known v

variable {I} {e : SyncEngine env sealing room}

/-! ### The store -/

theorem beginWrite {s : EventStore env room} (h : I.StoreOk s) : I.StoreOk s.beginWrite.1 := by
  unfold EventStore.beginWrite
  split
  · exact h
  · exact I.scheduled _ h

theorem insertAllInTx {vs : List (ValidatedEvent env room)} {s : EventStore env room} (h : I.StoreOk s)
    (hvs : ∀ v ∈ vs, I.Sound v) : I.StoreOk (EventStore.insertAllInTx s vs).1 := by
  induction vs generalizing s with
  | nil => exact h
  | cons v vs ih =>
    have hv := I.insertInTx h (hvs v List.mem_cons_self)
    exact ih hv fun w hw => hvs w (List.mem_cons_of_mem _ hw)

theorem insertAllOutcomes {vs : List (ValidatedEvent env room)} {s : EventStore env room} (h : I.StoreOk s)
    (hvs : ∀ v ∈ vs, I.Sound v) : I.StoreOk (s.insertAllOutcomes vs).1 := by
  unfold EventStore.insertAllOutcomes
  dsimp only
  split_ifs
  · exact insertAllInTx (beginWrite h) hvs
  · exact beginWrite h

theorem insert {v : ValidatedEvent env room} {s : EventStore env room} (h : I.StoreOk s) (hv : I.Sound v) :
    I.StoreOk (s.insert v).1 := by
  unfold EventStore.insert
  dsimp only
  split_ifs
  · exact I.insertInTx (beginWrite h) hv
  · exact beginWrite h

theorem fromEvents {vs : List (ValidatedEvent env room)} (hvs : ∀ v ∈ vs, I.Known v) :
    I.FoldOk (RoomMembership.fromEvents vs) :=
  List.foldlRecOn vs _ I.foldNew fun _ hm v hv => I.ingest hm (hvs v hv)

namespace Holds

theorem withStore (h : I.Holds e) {s : EventStore env room} (hs : I.StoreOk s) :
    I.Holds ({ e with store := s } : SyncEngine env sealing room) :=
  ⟨h.fold, hs, h.projection, h.park, h.retry, h.pending⟩

theorem eraseRetry (h : I.Holds e) (id : EventId) :
    I.Holds ({ e with storeRetry := e.storeRetry.erase id } : SyncEngine env sealing room) := by
  refine ⟨h.fold, h.store, h.projection, h.park, ?_, h.pending⟩
  intro id' r hr
  rw [OrdMap.get?_erase] at hr
  split_ifs at hr
  exact h.retry hr

theorem setRetry (h : I.Holds e) {id : EventId} {r : StoreRetry env room} (hr : I.Sound r.event) (seq : Nat) :
    I.Holds ({ e with
      storeRetry := e.storeRetry.insert id r
      storeRetrySeq := seq } : SyncEngine env sealing room) := by
  refine ⟨h.fold, h.store, h.projection, h.park, ?_, h.pending⟩
  intro id' r' hr'
  rw [OrdMap.get?_insert] at hr'
  split_ifs at hr'
  · rw [← Option.some.inj hr']
    exact hr
  · exact h.retry hr'

/-! ### Persistence -/

theorem recomputeCompleteness (h : I.Holds e) : I.Holds e.recomputeCompleteness := h

theorem armSuspectTip (h : I.Holds e) (id : EventId) (seq : Nat) : I.Holds (e.armSuspectTip id seq) := by
  unfold SyncEngine.armSuspectTip
  dsimp only
  split_ifs
  · exact h
  · exact h

theorem handleAdminTip (h : I.Holds e) (tip : Option (EventId × Nat)) : I.Holds (e.handleAdminTip tip) := by
  unfold SyncEngine.handleAdminTip
  apply recomputeCompleteness
  split
  · split_ifs
    · exact h.armSuspectTip _ _
    · exact h
  · exact h

theorem expireSuspectTip (h : I.Holds e) : I.Holds e.expireSuspectTip := by
  unfold SyncEngine.expireSuspectTip
  split
  · exact h
  · split_ifs
    · exact h
    · exact h

theorem applyInsertOutcome (h : I.Holds e) (outcome : InsertOutcome) (v : ValidatedEvent env room) :
    I.Holds (e.applyInsertOutcome outcome v) := by
  unfold SyncEngine.applyInsertOutcome
  cases outcome with
  | inserted => exact h
  | duplicate => exact h

theorem enqueueStoreRetry (h : I.Holds e) {v : ValidatedEvent env room} (hv : I.Sound v) :
    I.Holds (e.enqueueStoreRetry v) := by
  unfold SyncEngine.enqueueStoreRetry
  split_ifs
  · exact h
  · exact h
  · exact h.setRetry hv _

theorem applyLanded (h : I.Holds e) (landed : ValidatedEvent env room × InsertOutcome) :
    I.Holds (e.applyLanded landed) := (h.eraseRetry _).applyInsertOutcome _ _

theorem flushStoreBatch (h : I.Holds e) : I.Holds e.flushStoreBatch := by
  unfold SyncEngine.flushStoreBatch
  split_ifs
  · exact h
  · have hcleared : I.Holds ({ e with
        pendingBatch := []
        store := (e.store.insertAllOutcomes e.pendingBatch).1 } : SyncEngine env sealing room) :=
      ⟨h.fold, insertAllOutcomes h.store h.pending, h.projection, h.park, h.retry, by simp⟩
    dsimp only
    split
    · exact List.foldlRecOn _ _ hcleared fun _ hb landed _ => applyLanded hb landed
    · exact List.foldlRecOn _ _ hcleared fun _ hb v hv => enqueueStoreRetry hb (h.pending v hv)

theorem storeAndFanout (h : I.Holds e) {v : ValidatedEvent env room} (hv : I.Sound v) :
    I.Holds (e.storeAndFanout v) := by
  have hstored := h.withStore (insert h.store hv)
  unfold SyncEngine.storeAndFanout
  dsimp only
  split
  · exact hstored.applyLanded _
  · exact hstored.enqueueStoreRetry hv

theorem failRetry (h : I.Holds e) (id : EventId) {r : StoreRetry env room} (hr : I.Sound r.event) :
    I.Holds (e.failRetry id r) := by
  unfold SyncEngine.failRetry
  split_ifs
  · exact h.eraseRetry id
  · exact h.setRetry (r := { r with attempts := r.attempts + 1 }) hr _

theorem retryStoreLoop {ids : List EventId} (h : I.Holds e) : I.Holds (SyncEngine.retryStoreLoop ids e) := by
  induction ids generalizing e with
  | nil => exact h
  | cons id ids ih =>
    unfold SyncEngine.retryStoreLoop
    split
    · exact ih h
    · rename_i r hr
      have hsound := h.retry hr
      have hstored := h.withStore (insert h.store hsound)
      dsimp only
      split
      · exact ih ((hstored.eraseRetry id).applyInsertOutcome _ _)
      · exact hstored.failRetry id hsound

theorem retryStore (h : I.Holds e) : I.Holds e.retryStore := h.retryStoreLoop

/-! ### The fold -/

theorem refreshMembershipProjectionIfNeeded (h : I.Holds e) : I.Holds e.refreshMembershipProjectionIfNeeded := by
  unfold SyncEngine.refreshMembershipProjectionIfNeeded
  dsimp only
  split_ifs
  · exact h
  · exact ⟨h.fold, h.store, ⟨e.fold, h.fold, rfl⟩, h.park, h.retry, h.pending⟩

theorem ingestFold (h : I.Holds e) {v : ValidatedEvent env room} (hv : I.Known v) : I.Holds (e.ingestFold v) := by
  apply refreshMembershipProjectionIfNeeded
  exact ⟨I.ingest h.fold hv, h.store, h.projection, h.park, h.retry, h.pending⟩

/-- An event the fold accepts may be stored. -/
theorem sound_of_accepted (h : I.Holds e) {v : ValidatedEvent env room} (hv : I.Known v) {id : EventId}
    {flags : List Flag} (hout : (e.ingestFold v).fold.outcome v.eventId = .accepted id flags) : I.Sound v := by
  have hfold : (e.ingestFold v).fold = e.fold.ingest v := by
    unfold SyncEngine.ingestFold SyncEngine.refreshMembershipProjectionIfNeeded
    dsimp only
    split_ifs <;> rfl
  rw [hfold] at hout
  exact I.accepted h.fold hv hout

/-! ### The park -/

theorem erasePark (h : I.Holds e) (id : EventId) : I.Holds (e.evictParked id) := by
  refine ⟨h.fold, h.store, h.projection, ?_, h.retry, h.pending⟩
  intro id' p hp
  rw [SyncEngine.evictParked, OrdMap.get?_erase] at hp
  split_ifs at hp
  exact h.park hp

theorem enforceTotal (fuel : Nat) (h : I.Holds e) : I.Holds (SyncEngine.enforceTotal fuel e) := by
  induction fuel generalizing e with
  | zero => exact h
  | succ fuel ih =>
    unfold SyncEngine.enforceTotal
    split_ifs
    · split
      · exact ih (h.erasePark _)
      · exact h
    · exact h

theorem enforceAuthor (h : I.Holds e) (author : IdentityKey) : I.Holds (e.enforceAuthor author) := by
  unfold SyncEngine.enforceAuthor
  split_ifs
  · split
    · exact h.erasePark _
    · exact h
  · exact h

theorem parkFrame (h : I.Holds e) {v : ValidatedEvent env room} (hv : I.Known v) (depth : Nat)
    (missing : List EventId) : I.Holds (e.parkFrame v depth missing) := by
  unfold SyncEngine.parkFrame
  split_ifs
  · exact h
  · have hcapped := (h.enforceTotal (e.park.entries.length + 1)).enforceAuthor v.event.senderId
    refine ⟨hcapped.fold, hcapped.store, hcapped.projection, ?_, hcapped.retry, hcapped.pending⟩
    intro id p hp
    rw [OrdMap.get?_insert] at hp
    split_ifs at hp
    · rw [← Option.some.inj hp]
      exact hv
    · exact hcapped.park hp

theorem chase (h : I.Holds e) (author : IdentityKey) (depth : Nat) (missing : List EventId) :
    I.Holds (e.chase author depth missing) := by
  unfold SyncEngine.chase
  dsimp only
  split_ifs
  · exact h
  · exact h
  · exact h

theorem onBuffered (h : I.Holds e) {v : ValidatedEvent env room} (hv : I.Known v) (missing : List EventId) :
    I.Holds (e.onBuffered v missing) := by
  unfold SyncEngine.onBuffered
  dsimp only
  split_ifs
  · exact h
  · exact h
  · have hparked := h.parkFrame hv ((e.backfillDepth.get? v.eventId).getD 0) missing
    split
    · exact hparked
    · exact hparked.chase _ _ _

theorem wakeOne {st : SyncEngine env sealing room × Bool} (h : I.Holds st.1) (id : EventId) :
    I.Holds (SyncEngine.wakeOne st id).1 := by
  unfold SyncEngine.wakeOne
  split
  · exact h
  · rename_i p hp
    have hknown := h.park hp
    have hfolded := h.ingestFold hknown
    dsimp only
    split
    · rename_i hout
      exact (hfolded.erasePark id).storeAndFanout (h.sound_of_accepted hknown hout)
    · exact hfolded.erasePark id
    · exact hfolded

theorem wakeParkLoop (fuel : Nat) (h : I.Holds e) : I.Holds (SyncEngine.wakeParkLoop fuel e) := by
  induction fuel generalizing e with
  | zero => exact h
  | succ fuel ih =>
    have hpass : I.Holds (e.park.keys.foldl SyncEngine.wakeOne (e, false)).1 :=
      List.foldlRecOn (motive := fun st : SyncEngine env sealing room × Bool => I.Holds st.1) _ _ h
        fun _ hst id _ => wakeOne hst id
    unfold SyncEngine.wakeParkLoop
    dsimp only
    split_ifs
    · exact ih hpass
    · exact hpass

theorem wakePark (h : I.Holds e) : I.Holds e.wakePark := h.wakeParkLoop _

theorem retryPark (h : I.Holds e) : I.Holds e.retryPark :=
  List.foldlRecOn _ _ h.wakePark fun _ hb p _ => chase hb p.1 p.2.1 p.2.2

theorem retryRestoredOne (h : I.Holds e) (id : EventId) : I.Holds (e.retryRestoredOne id) := by
  unfold SyncEngine.retryRestoredOne
  dsimp only
  split
  · exact h
  · apply chase
    exact h

theorem retryRestoredPark (h : I.Holds e) : I.Holds e.retryRestoredPark := by
  unfold SyncEngine.retryRestoredPark
  split_ifs
  · exact h
  · exact List.foldlRecOn _ _ h fun _ hb id _ => retryRestoredOne hb id

/-! ### Delivery -/

theorem deliver (h : I.Holds e) {v : ValidatedEvent env room} (hv : I.Known v) : I.Holds (e.deliver v) := by
  have hfolded := h.ingestFold hv
  unfold SyncEngine.deliver
  split_ifs
  · exact h
  · dsimp only
    split
    · rename_i hout
      have hqueued : I.Holds ({ e.ingestFold v with
          backfillDepth := (e.ingestFold v).backfillDepth.erase v.eventId
          pendingBatch := (e.ingestFold v).pendingBatch ++ [v] } : SyncEngine env sealing room) := by
        refine ⟨hfolded.fold, hfolded.store, hfolded.projection, hfolded.park, hfolded.retry, ?_⟩
        intro w hw
        rcases List.mem_append.mp hw with hw | hw
        · exact hfolded.pending w hw
        · rw [List.mem_singleton.mp hw]
          exact h.sound_of_accepted hv hout
      split_ifs
      · exact hqueued.flushStoreBatch
      · exact hqueued
    · exact hfolded.flushStoreBatch.onBuffered hv _
    · apply flushStoreBatch
      exact hfolded

theorem deliverFrame (h : I.Holds e) {f : Frame} (hf : I.KnownFrame f) : I.Holds (e.deliverFrame f) := by
  unfold SyncEngine.deliverFrame
  split_ifs
  · exact h
  · split
    · rename_i v hv
      obtain ⟨hid, hevent⟩ := validate_ok hv
      exact h.deliver (hf v hid hevent)
    · exact h

theorem finalizeDelivery (h : I.Holds e) : I.Holds e.finalizeDelivery := h.flushStoreBatch.wakePark.flushStoreBatch

/-! ### Entry points -/

theorem publish (h : I.Holds e) {f : Frame} (hf : I.KnownFrame f) {e' : SyncEngine env sealing room}
    (hok : e.publish f = .ok e') : I.Holds e' := by
  obtain ⟨v, hv, rfl⟩ := SyncEngine.publish_ok hok
  obtain ⟨hid, hevent⟩ := validate_ok hv
  exact (h.deliver (hf v hid hevent)).finalizeDelivery

theorem onMessage (h : I.Holds e) (msgRoom : RoomId) {msg : SyncMessage} (hf : ∀ f ∈ msg.frames, I.KnownFrame f) :
    I.Holds (e.onMessage msgRoom msg) := by
  unfold SyncEngine.onMessage
  split_ifs
  · exact h
  · apply finalizeDelivery
    cases msg with
    | adminTip tip => exact h.handleAdminTip tip
    | events frames =>
      exact List.foldlRecOn _ _ h fun _ hb f hmem => deliverFrame hb (hf f hmem)
    | terminalEvents frames =>
      exact List.foldlRecOn _ _ h fun _ hb f hmem => deliverFrame hb (hf f hmem)
    | keyHistory chunks => exact List.foldlRecOn _ _ h fun _ hb _ _ => hb
    | other => exact h

theorem onTick (h : I.Holds e) : I.Holds e.onTick := by
  have hrefilled : I.Holds e.refillTokens := h
  exact hrefilled.expireSuspectTip.retryStore.retryPark.retryRestoredPark

theorem step (h : I.Holds e) {input : SyncEngine.Input} (hf : ∀ f ∈ input.frames, I.KnownFrame f) :
    I.Holds (e.step input) := by
  cases input with
  | ingestFrame f => exact (h.deliverFrame (hf f List.mem_cons_self)).finalizeDelivery
  | publish f =>
    unfold SyncEngine.step
    dsimp only
    split
    · rename_i e' hok
      exact h.publish (hf f List.mem_cons_self) hok
    · exact h
  | onConnect peer =>
    apply retryRestoredPark
    exact h
  | onDisconnect peer => exact h
  | onMessage msgRoom msg => exact h.onMessage msgRoom hf
  | onTick => exact h.onTick
  | insertRoomKey epoch key => exact h

theorem steps (h : I.Holds e) {inputs : List SyncEngine.Input}
    (hf : ∀ input ∈ inputs, ∀ f ∈ input.frames, I.KnownFrame f) : I.Holds (inputs.foldl SyncEngine.step e) :=
  List.foldlRecOn _ _ h fun _ hst input hi => step hst (hf input hi)

/-- An engine restored over a sound store and known parked events. -/
theorem restore {s : EventStore env room} (hs : I.StoreOk s) {tables : SyncTables env room}
    (hparked : ∀ {id p}, tables.parked.get? id = some p → I.Known p.event) (config : SyncConfig)
    (seed : Option SigningKey) : I.Holds (SyncEngine.restore config seed s tables : SyncEngine env sealing room) := by
  have hfold : I.FoldOk (RoomMembership.fromEvents (s.roomTail.map Row.event)) := by
    apply fromEvents
    intro v hv
    obtain ⟨row, hrow, rfl⟩ := List.mem_map.mp hv
    exact I.stored hs (EventStore.mem_roomTail.mp hrow).1
  refine ⟨hfold, hs, ⟨_, hfold, rfl⟩, hparked, ?_, ?_⟩
  · intro id r hr
    cases hr
  · intro v hv
    cases hv

end Holds

end EngineInvariant

/-! ### Reachable states -/

/-- The states of a node that starts on an empty store, is driven by inputs and restarted on its own store, as long
as every frame and every event restored to the park `occurs`. A restart may find any sync tables and
any outcomes of the coming writes. -/
inductive Reachable (occurs : EventId → SignedEvent → Prop) : SyncEngine env sealing room → Prop
  | opened {config : SyncConfig} {seed : Option SigningKey} {writes : List Bool} {tables : SyncTables env room}
    {e : SyncEngine env sealing room}
    (hparked : ∀ {id p}, tables.parked.get? id = some p → occurs p.event.eventId p.event.event)
    (hopen : SyncEngine.openEngine config seed (.openEmpty writes) tables = .ok e) : Reachable occurs e
  | reopened {config : SyncConfig} {seed : Option SigningKey} {writes : List Bool} {tables : SyncTables env room}
    {e e' : SyncEngine env sealing room} (h : Reachable occurs e)
    (hparked : ∀ {id p}, tables.parked.get? id = some p → occurs p.event.eventId p.event.event)
    (hopen : SyncEngine.openEngine config seed { e.store with writes := writes } tables = .ok e') :
    Reachable occurs e'
  | step {e : SyncEngine env sealing room} (h : Reachable occurs e) (input : SyncEngine.Input)
    (hframes : ∀ f ∈ input.frames, occurs f.eventId f.event) : Reachable occurs (e.step input)

theorem SyncEngine.openEngine_ok {config : SyncConfig} {seed : Option SigningKey} {s : EventStore env room}
    {tables : SyncTables env room} {e : SyncEngine env sealing room} (h : openEngine config seed s tables = .ok e) :
    e = restore config seed s tables := by
  unfold openEngine at h
  split at h
  · cases h
  · exact (Except.ok.inj h).symm

/-- An invariant under which what occurs is known holds in every reachable state. -/
theorem Reachable.holds {occurs : EventId → SignedEvent → Prop} (I : EngineInvariant env room)
    (hknown : ∀ v : ValidatedEvent env room, occurs v.eventId v.event → I.Known v)
    {e : SyncEngine env sealing room} (h : Reachable occurs e) : I.Holds e := by
  induction h with
  | opened hparked hopen =>
    rw [SyncEngine.openEngine_ok hopen]
    exact .restore (I.storeEmpty _) (fun hp => hknown _ (hparked hp)) _ _
  | reopened _ hparked hopen ih =>
    rw [SyncEngine.openEngine_ok hopen]
    exact .restore (I.scheduled _ ih.store) (fun hp => hknown _ (hparked hp)) _ _
  | step _ input hframes ih =>
    apply EngineInvariant.Holds.step ih
    intro f hf v hid hevent
    apply hknown
    rw [hid, hevent]
    exact hframes f hf

/-- The cached projection is always the snapshot of a fold. -/
theorem Reachable.snapshot_eq_fold {occurs : EventId → SignedEvent → Prop} {e : SyncEngine env sealing room}
    (h : Reachable occurs e) : ∃ scope, e.snapshot = fold env room scope := by
  have hholds := h.holds
    { Known := fun _ => True, Sound := fun _ => True, FoldOk := fun _ => True, StoreOk := fun _ => True
      foldNew := trivial, ingest := fun _ _ => trivial, accepted := fun _ _ _ => trivial
      storeEmpty := fun _ => trivial, scheduled := fun _ _ => trivial, insertInTx := fun _ _ => trivial
      stored := fun _ _ => trivial } fun _ _ => trivial
  obtain ⟨m, -, hm⟩ := hholds.projection
  exact ⟨_, hm⟩

/-- A run of the worked room is reachable with any events that cover its own. -/
theorem Toy.reachable_run {occurs : EventId → SignedEvent → Prop} {events : List (Nat × SignedEvent)}
    (h : ∀ p ∈ events, occurs (Bytes32.ofNat p.1) p.2) : Reachable occurs (Toy.run events) := by
  have hopen : SyncEngine.openEngine .standard none (.openEmpty []) ⟨.empty, none, .empty, .empty⟩
      = .ok Toy.opened := rfl
  have hopened : Reachable occurs Toy.opened := by
    refine .opened (fun {id p} hp => ?_) hopen
    cases hp
  refine List.foldlRecOn _ _ hopened fun e he f hf => ?_
  obtain ⟨p, hp, rfl⟩ := List.mem_map.mp hf
  refine .step he (.ingestFrame (Toy.frame p)) fun f' hf' => ?_
  rw [List.mem_singleton.mp hf']
  exact h p hp

end IrohRooms
