import IrohRooms.Sync.Carried

/-!
# The cached projection

The engine answers membership questions from a snapshot that it refreshes when the fold's generation has moved. Only
an ingest moves the fold, and the refresh follows it at once, so the snapshot is that of the fold in every state the
engine passes through, inside a call as well as between calls (`Fresh`). The generation saturates, which takes more
accepted events than a map can hold.
-/

namespace IrohRooms

variable {env : Env} {sealing : Sealing} {room : RoomId}

namespace SyncEngine

variable {e f : SyncEngine env sealing room}

/-! ### What moves the fold -/

/-- The fold and the cached projection are the same. -/
def SameView (e f : SyncEngine env sealing room) : Prop :=
  f.fold = e.fold ∧ f.membershipProjection = e.membershipProjection

theorem SameView.refl (e : SyncEngine env sealing room) : SameView e e := ⟨rfl, rfl⟩

theorem SameView.trans {g : SyncEngine env sealing room} (h : SameView e f) (h' : SameView f g) : SameView e g :=
  ⟨h'.1.trans h.1, h'.2.trans h.2⟩

theorem foldl_view {α : Type} {step : SyncEngine env sealing room → α → SyncEngine env sealing room}
    (hstep : ∀ e a, SameView e (step e a)) (l : List α) (e : SyncEngine env sealing room) :
    SameView e (l.foldl step e) := by
  induction l generalizing e with
  | nil => exact .refl e
  | cons a l ih => exact (hstep e a).trans (ih _)

theorem applyInsertOutcome_view (e : SyncEngine env sealing room) (outcome : InsertOutcome)
    (v : ValidatedEvent env room) :
    SameView e (e.applyInsertOutcome outcome v) := by
  cases outcome <;> exact ⟨rfl, rfl⟩

theorem applyLanded_view (e : SyncEngine env sealing room) (landed : ValidatedEvent env room × InsertOutcome) :
    SameView e (e.applyLanded landed) := by
  apply SameView.trans _ (applyInsertOutcome_view _ _ _)
  exact ⟨rfl, rfl⟩

theorem enqueueStoreRetry_view (e : SyncEngine env sealing room) (v : ValidatedEvent env room) :
    SameView e (e.enqueueStoreRetry v) := by
  unfold enqueueStoreRetry
  split_ifs <;> exact ⟨rfl, rfl⟩

theorem flushStoreBatch_view (e : SyncEngine env sealing room) : SameView e e.flushStoreBatch := by
  unfold flushStoreBatch
  split_ifs
  · exact .refl e
  · have hcleared : SameView e { e with
        pendingBatch := []
        store := (e.store.insertAllOutcomes e.pendingBatch).1 } := ⟨rfl, rfl⟩
    dsimp only
    split
    · exact hcleared.trans (foldl_view applyLanded_view _ _)
    · exact hcleared.trans (foldl_view enqueueStoreRetry_view _ _)

theorem storeAndFanout_view (e : SyncEngine env sealing room) (v : ValidatedEvent env room) :
    SameView e (e.storeAndFanout v) := by
  have hwritten : SameView e { e with store := (e.store.insert v).1 } := ⟨rfl, rfl⟩
  unfold storeAndFanout
  dsimp only
  split
  · exact hwritten.trans (applyLanded_view _ _)
  · exact hwritten.trans (enqueueStoreRetry_view _ _)

theorem retryStoreLoop_view (ids : List EventId) (e : SyncEngine env sealing room) :
    SameView e (retryStoreLoop ids e) := by
  induction ids generalizing e with
  | nil => exact .refl e
  | cons id ids ih =>
    unfold retryStoreLoop
    split
    · exact ih e
    · rename_i r hr
      dsimp only
      split
      · have hlanded := applyInsertOutcome_view ({ e with
          store := (e.store.insert r.event).1
          storeRetry := e.storeRetry.erase id } : SyncEngine env sealing room) ‹InsertOutcome› r.event
        exact SameView.trans ⟨hlanded.1, hlanded.2⟩ (ih _)
      · unfold failRetry
        split_ifs <;> exact ⟨rfl, rfl⟩

theorem expireSuspectTip_view (e : SyncEngine env sealing room) : SameView e e.expireSuspectTip := by
  unfold expireSuspectTip
  split
  · exact .refl e
  · split_ifs <;> exact ⟨rfl, rfl⟩

theorem handleAdminTip_view (e : SyncEngine env sealing room) (tip : Option (EventId × Nat)) :
    SameView e (e.handleAdminTip tip) := by
  have harmed : ∀ id seq, SameView e (e.armSuspectTip id seq) := by
    intro id seq
    unfold armSuspectTip
    dsimp only
    split_ifs <;> exact ⟨rfl, rfl⟩
  unfold handleAdminTip
  split
  · split_ifs
    · exact harmed _ _
    · exact ⟨rfl, rfl⟩
  · exact ⟨rfl, rfl⟩

theorem Quiet.view (h : Quiet e f) : SameView e f := ⟨h.fold, h.projection⟩

/-! ### Freshness -/

/-- The snapshot is that of the fold unless the generation is saturated, which takes as many accepted events. -/
structure Fresh (e : SyncEngine env sealing room) : Prop where
  settled : e.fold.Settled
  counted : e.fold.Counted
  generation : e.membershipProjection.foldGeneration = e.fold.membershipProjectionGeneration
  accurate : e.fold.membershipProjectionGeneration < u64Max → e.snapshot = e.fold.snapshot

/-- A fold has room when its map has fewer events than the generation has values. -/
def HasGenerations (e : SyncEngine env sealing room) : Prop := e.fold.nodes.entries.length < u64Max

theorem Fresh.current (h : e.Fresh) (hroom : e.HasGenerations) : e.snapshot = e.fold.snapshot :=
  h.accurate (Nat.lt_of_le_of_lt (h.counted.trans e.fold.card_acceptedIds_le) hroom)

theorem Fresh.view (h : e.Fresh) (hv : SameView e f) : f.Fresh := by
  obtain ⟨hfold, hprojection⟩ := hv
  refine ⟨hfold ▸ h.settled, hfold ▸ h.counted, ?_, ?_⟩
  · rw [hfold, hprojection]
    exact h.generation
  · rw [hfold, snapshot, hprojection]
    exact h.accurate

theorem Fresh.ingestFold (h : e.Fresh) (v : ValidatedEvent env room) : (e.ingestFold v).Fresh := by
  refine ⟨?_, ?_, e.ingestFold_generation v, ingestFold_accurate h.settled h.generation h.accurate v⟩
  · rw [ingestFold_fold]
    exact h.settled.ingest v
  · rw [ingestFold_fold]
    exact h.counted.ingest h.settled.wf v

/-- An event that the fold tracks already moves nothing. -/
theorem ingestFold_tracked {v : ValidatedEvent env room} (h : e.Fresh)
    (htracked : e.fold.nodes.contains v.eventId = true) : e.ingestFold v = e := by
  have hsame : e.fold.ingest v = e.fold := if_pos htracked
  rw [ingestFold_eq, hsame, if_pos h.generation.symm]

theorem fresh_carried : Carried (fun _ => True) (Fresh : SyncEngine env sealing room → Prop) where
  parked _ _ := trivial
  books he hbooks := he.view hbooks.toQuiet.view
  ingest he _ := he.ingestFold _
  queue he _ _ := (he.ingestFold _).view ⟨rfl, rfl⟩
  promote he _ _ := ((he.ingestFold _).view ⟨rfl, rfl⟩).view (storeAndFanout_view _ _)
  flush he := he.view (flushStoreBatch_view _)

theorem Fresh.onTick (h : e.Fresh) : e.onTick.Fresh := by
  have hrefilled : SameView e e.refillTokens := ⟨rfl, rfl⟩
  have hretried := (hrefilled.trans (expireSuspectTip_view _)).trans
    (retryStoreLoop_view e.refillTokens.expireSuspectTip.retryOrder _)
  have hwoken := Carried.wakeParkLoop fresh_carried (e.refillTokens.expireSuspectTip.retryStore.park.entries.length + 1)
    (h.view hretried)
  obtain ⟨hchased, -⟩ := foldl_quiet
    (fun (e : SyncEngine env sealing room) (p : IdentityKey × Nat × List EventId) => e.chase_quiet p.1 p.2.1 p.2.2)
    (e.refillTokens.expireSuspectTip.retryStore.wakePark.park.values.map fun p => (p.author, p.depth, p.missing.toList))
    e.refillTokens.expireSuspectTip.retryStore.wakePark
  obtain ⟨hrestored, -⟩ := e.refillTokens.expireSuspectTip.retryStore.retryPark.retryRestoredPark_quiet
  exact (hwoken.view hchased.view).view hrestored.view

theorem Fresh.step (h : e.Fresh) (input : Input) : (e.step input).Fresh := by
  by_cases hplain : input.Plain room
  · exact Carried.step_plain fresh_carried h hplain fun _ _ _ _ _ => trivial
  · cases input with
    | onTick => exact h.onTick
    | onMessage msgRoom msg =>
      cases msg with
      | adminTip tip =>
        have hroom : msgRoom = room := not_not.mp hplain
        simp only [SyncEngine.step, SyncEngine.onMessage]
        rw [if_neg (not_not.mpr hroom)]
        exact Carried.finalizeDelivery fresh_carried (h.view (handleAdminTip_view e tip))
      | events frames => exact absurd trivial hplain
      | terminalEvents frames => exact absurd trivial hplain
      | keyHistory chunks => exact absurd trivial hplain
      | other => exact absurd trivial hplain
    | ingestFrame frame => exact absurd trivial hplain
    | publish frame => exact absurd trivial hplain
    | onConnect peer => exact absurd trivial hplain
    | onDisconnect peer => exact absurd trivial hplain
    | insertRoomKey epoch key => exact absurd trivial hplain

theorem fresh_restore (config : SyncConfig) (seed : Option SigningKey) (store : EventStore env room)
    (tables : SyncTables env room) : (restore config seed store tables : SyncEngine env sealing room).Fresh :=
  ⟨RoomMembership.settled_fromEvents _, RoomMembership.counted_fromEvents _, rfl, fun _ => rfl⟩

/-! ### Inside a call -/

/-- The event of a frame that reaches the fold: not skipped as seen, valid, and not dropped as implausible. -/
def admitted (e : SyncEngine env sealing room) (frame : Frame) : List (ValidatedEvent env room) :=
  if e.dedupCache.contains frame.eventId then []
  else match validate env ⟨room, none⟩ frame.eventId frame.event with
    | .ok v => if e.wouldBuffer v && !e.signerPlausible v then [] else [v]
    | .error _ => []

/-- The events of a message's frames that reach the fold, each frame judged where the frames before it have led. -/
def admittedAll (e : SyncEngine env sealing room) : List Frame → List (ValidatedEvent env room)
  | [] => []
  | frame :: frames => e.admitted frame ++ (e.deliverFrame frame).admittedAll frames

theorem deliver_fold (e : SyncEngine env sealing room) (v : ValidatedEvent env room) :
    (e.deliver v).fold = if e.wouldBuffer v && !e.signerPlausible v then e.fold else e.fold.ingest v := by
  unfold deliver
  split_ifs
  · rfl
  · dsimp only
    split
    · split_ifs
      · rw [(flushStoreBatch_view _).1]
        exact ingestFold_fold e v
      · exact ingestFold_fold e v
    · have hbuffered := onBuffered_reparks (K := fun _ => True) (e.ingestFold v).flushStoreBatch (v := v) trivial
        ‹List EventId›
      rw [hbuffered.toQuiet.fold, (flushStoreBatch_view _).1]
      exact ingestFold_fold e v
    · rw [(flushStoreBatch_view _).1]
      exact ingestFold_fold e v

theorem deliverFrame_fold (e : SyncEngine env sealing room) (frame : Frame) :
    (e.deliverFrame frame).fold = (e.admitted frame).foldl RoomMembership.ingest e.fold := by
  unfold deliverFrame admitted
  split_ifs
  · rfl
  · cases validate env ⟨room, none⟩ frame.eventId frame.event with
    | ok v =>
      dsimp only
      rw [deliver_fold]
      split_ifs <;> rfl
    | error reason => rfl

theorem foldl_deliverFrame_fold (frames : List Frame) (e : SyncEngine env sealing room) :
    (frames.foldl deliverFrame e).fold = (e.admittedAll frames).foldl RoomMembership.ingest e.fold := by
  induction frames generalizing e with
  | nil => rfl
  | cons frame frames ih =>
    rw [List.foldl_cons, ih, admittedAll, List.foldl_append, deliverFrame_fold]

end SyncEngine

open SyncEngine

theorem Reachable.fresh {occurs : EventId → SignedEvent → Prop} {e : SyncEngine env sealing room}
    (h : Reachable occurs e) : e.Fresh := by
  induction h with
  | opened _ hopen =>
    rw [openEngine_ok hopen]
    exact fresh_restore _ _ _ _
  | reopened _ _ hopen _ =>
    rw [openEngine_ok hopen]
    exact fresh_restore _ _ _ _
  | step _ input _ ih => exact ih.step input

/-- Between calls the served snapshot is that of the fold. Inside a call, when a frame comes up after the frames before
it, or a parked frame after others were woken, the snapshot is that of the fold so far, and the fold so far has ingested
the events of all the frames before. -/
theorem Reachable.projection_current {occurs : EventId → SignedEvent → Prop} {e : SyncEngine env sealing room}
    (h : Reachable occurs e) :
    (e.HasGenerations → e.snapshot = e.fold.snapshot) ∧
    ∀ before : List Frame, let judged := before.foldl deliverFrame e
      judged.fold = (e.admittedAll before).foldl RoomMembership.ingest e.fold ∧
      (judged.HasGenerations → judged.snapshot = judged.fold.snapshot) ∧
      ∀ woken : List EventId, let waking := (woken.foldl wakeOne (judged.flushStoreBatch, false)).1
        waking.HasGenerations → waking.snapshot = waking.fold.snapshot := by
  have hfresh := h.fresh
  refine ⟨hfresh.current, fun before => ⟨foldl_deliverFrame_fold before e, ?_⟩⟩
  have hjudged : (before.foldl deliverFrame e).Fresh := List.foldlRecOn before _ hfresh fun _ hst _ _ =>
    Carried.deliverFrame fresh_carried hst fun _ _ _ => trivial
  refine ⟨hjudged.current, fun woken => ?_⟩
  have hwaking : (woken.foldl wakeOne ((before.foldl deliverFrame e).flushStoreBatch, false)).1.Fresh :=
    List.foldlRecOn (motive := fun st : SyncEngine env sealing room × Bool => st.1.Fresh) woken _
      (Carried.flush fresh_carried hjudged) fun _ hst id _ => Carried.wakeOne fresh_carried hst id
  exact hwaking.current

theorem Toy.projection_current_memberRoom :
    (Toy.run Toy.memberRoom).snapshot = (Toy.run Toy.memberRoom).fold.snapshot := by
  have hreach : Reachable (fun _ _ => True) (Toy.run Toy.memberRoom) := Toy.reachable_run fun _ _ => trivial
  apply hreach.projection_current.1
  unfold HasGenerations
  decide +kernel

end IrohRooms
