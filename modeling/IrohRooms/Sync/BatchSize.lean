import IrohRooms.Sync.Dedup

/-!
# Two batch sizes

Two engines over one store that differ in the number of accepted events a batch holds. The size is read in one place,
where an accepted event joins the batch, so every other function takes the same steps (`sized`); and a delivery, with
its batch committed, is a delivery after the batch, whatever the size (`deliver_resized`). What shows is that the gate
before the fold reads the store without the batch: a frame whose signer is unknown is dropped when its parent still
waits in the batch and folded when the parent is stored. As long as that decides nothing (`steadyRun`) the engines end
with the same accepted events, snapshot, store and keys (`batching_transparent`).
-/

namespace IrohRooms

variable {env : Env} {sealing : Sealing} {room : RoomId}

namespace SyncEngine

variable {e : SyncEngine env sealing room} {v : ValidatedEvent env room} {n : Nat}

/-- The engine with another batch size. -/
def sized (e : SyncEngine env sealing room) (n : Nat) : SyncEngine env sealing room :=
  { e with config := { e.config with storeInsertBatchSize := n } }

/-! ### What does not read the size -/

theorem sized_ite (c : Prop) [Decidable c] (a b : SyncEngine env sealing room) :
    (if c then a else b).sized n = if c then a.sized n else b.sized n := apply_ite (fun e => sized e n) c a b

theorem foldl_sized {α : Type} {step : SyncEngine env sealing room → α → SyncEngine env sealing room}
    (hstep : ∀ e a, step (e.sized n) a = (step e a).sized n) (as : List α) (e : SyncEngine env sealing room) :
    as.foldl step (e.sized n) = (as.foldl step e).sized n := by
  induction as generalizing e with
  | nil => rfl
  | cons a as ih =>
    rw [List.foldl_cons, List.foldl_cons, hstep]
    exact ih (step e a)

theorem sized_applyInsertOutcome (e : SyncEngine env sealing room) (outcome : InsertOutcome)
    (v : ValidatedEvent env room) :
    (e.sized n).applyInsertOutcome outcome v = (e.applyInsertOutcome outcome v).sized n := by
  cases outcome <;> rfl

theorem sized_applyLanded (e : SyncEngine env sealing room) (landed : ValidatedEvent env room × InsertOutcome) :
    (e.sized n).applyLanded landed = (e.applyLanded landed).sized n := by
  unfold applyLanded
  rw [← sized_applyInsertOutcome]
  rfl

theorem sized_enqueueStoreRetry (e : SyncEngine env sealing room) (v : ValidatedEvent env room) :
    (e.sized n).enqueueStoreRetry v = (e.enqueueStoreRetry v).sized n := by
  unfold enqueueStoreRetry
  rw [sized_ite, sized_ite]
  rfl

theorem sized_flushStoreBatch (e : SyncEngine env sealing room) :
    (e.sized n).flushStoreBatch = e.flushStoreBatch.sized n := by
  unfold flushStoreBatch
  rw [sized_ite]
  refine if_congr Iff.rfl rfl ?_
  have hstore : (e.sized n).store.insertAllOutcomes (e.sized n).pendingBatch =
    e.store.insertAllOutcomes e.pendingBatch := rfl
  dsimp only
  rw [hstore]
  cases (e.store.insertAllOutcomes e.pendingBatch).2 with
  | some outcomes =>
    exact foldl_sized sized_applyLanded (e.pendingBatch.zip outcomes) ({ e with
      pendingBatch := [], store := (e.store.insertAllOutcomes e.pendingBatch).1 } : SyncEngine env sealing room)
  | none =>
    exact foldl_sized sized_enqueueStoreRetry e.pendingBatch ({ e with
      pendingBatch := [], store := (e.store.insertAllOutcomes e.pendingBatch).1 } : SyncEngine env sealing room)

theorem sized_storeAndFanout (e : SyncEngine env sealing room) (v : ValidatedEvent env room) :
    (e.sized n).storeAndFanout v = (e.storeAndFanout v).sized n := by
  have hstore : (e.sized n).store.insert v = e.store.insert v := rfl
  unfold storeAndFanout
  dsimp only
  rw [hstore]
  cases (e.store.insert v).2 with
  | some outcome =>
    exact sized_applyLanded ({ e with store := (e.store.insert v).1 } : SyncEngine env sealing room) (v, outcome)
  | none =>
    exact sized_enqueueStoreRetry ({ e with store := (e.store.insert v).1 } : SyncEngine env sealing room) v

theorem sized_ingestFold (e : SyncEngine env sealing room) (v : ValidatedEvent env room) :
    (e.sized n).ingestFold v = (e.ingestFold v).sized n := by
  rw [ingestFold_eq, ingestFold_eq]
  rfl

theorem sized_enforceTotal (fuel : Nat) (e : SyncEngine env sealing room) :
    enforceTotal fuel (e.sized n) = (enforceTotal fuel e).sized n := by
  induction fuel generalizing e with
  | zero => rfl
  | succ fuel ih =>
    have holdest : (e.sized n).oldestParked none = e.oldestParked none := rfl
    unfold enforceTotal
    rw [sized_ite, holdest]
    refine if_congr Iff.rfl ?_ rfl
    cases e.oldestParked none with
    | some id => exact ih (e.evictParked id)
    | none => rfl

theorem sized_enforceAuthor (e : SyncEngine env sealing room) (author : IdentityKey) :
    (e.sized n).enforceAuthor author = (e.enforceAuthor author).sized n := by
  have holdest : (e.sized n).oldestParked (some author) = e.oldestParked (some author) := rfl
  unfold enforceAuthor
  rw [sized_ite, holdest]
  refine if_congr Iff.rfl ?_ rfl
  cases e.oldestParked (some author) <;> rfl

theorem sized_parkFrame (e : SyncEngine env sealing room) (v : ValidatedEvent env room) (depth : Nat)
    (missing : List EventId) : (e.sized n).parkFrame v depth missing = (e.parkFrame v depth missing).sized n := by
  unfold parkFrame
  rw [sized_ite]
  refine if_congr Iff.rfl rfl ?_
  dsimp only
  rw [sized_enforceTotal, sized_enforceAuthor]
  rfl

theorem sized_chase (e : SyncEngine env sealing room) (author : IdentityKey) (depth : Nat) (missing : List EventId) :
    (e.sized n).chase author depth missing = (e.chase author depth missing).sized n := by
  unfold chase
  dsimp only
  rw [sized_ite, sized_ite]
  rfl

theorem sized_onBuffered (e : SyncEngine env sealing room) (v : ValidatedEvent env room) (missing : List EventId) :
    (e.sized n).onBuffered v missing = (e.onBuffered v missing).sized n := by
  unfold onBuffered
  dsimp only
  rw [sized_ite, sized_ite]
  refine if_congr Iff.rfl rfl (if_congr Iff.rfl rfl ?_)
  have hparked := sized_parkFrame (n := n) e v ((e.backfillDepth.get? v.eventId).getD 0) missing
  have hpark : ((e.parkFrame v ((e.backfillDepth.get? v.eventId).getD 0) missing).sized n).park =
    (e.parkFrame v ((e.backfillDepth.get? v.eventId).getD 0) missing).park := rfl
  have hdepth : (e.sized n).backfillDepth = e.backfillDepth := rfl
  rw [hdepth, hparked, hpark]
  cases (e.parkFrame v ((e.backfillDepth.get? v.eventId).getD 0) missing).park.get? v.eventId with
  | none => rfl
  | some p => exact sized_chase ..

/-- The pair a pass over the park carries, with another batch size. -/
def sizedPass (st : SyncEngine env sealing room × Bool) (n : Nat) : SyncEngine env sealing room × Bool :=
  (st.1.sized n, st.2)

theorem sized_wakeOne (st : SyncEngine env sealing room × Bool) (id : EventId) :
    wakeOne (sizedPass st n) id = sizedPass (wakeOne st id) n := by
  have hpark : (sizedPass st n).1.park = st.1.park := rfl
  unfold wakeOne
  rw [hpark]
  cases st.1.park.get? id with
  | none => rfl
  | some p =>
    have hfolded : (sizedPass st n).1.ingestFold p.event = (st.1.ingestFold p.event).sized n := sized_ingestFold ..
    have hfold : ((st.1.ingestFold p.event).sized n).fold = (st.1.ingestFold p.event).fold := rfl
    dsimp only
    rw [hfolded, hfold]
    cases (st.1.ingestFold p.event).fold.outcome p.event.eventId with
    | accepted _ flags =>
      exact congrArg (fun f => (f, true)) (sized_storeAndFanout ((st.1.ingestFold p.event).evictParked id) p.event)
    | rejected _ reason => rfl
    | buffered _ missing => rfl

theorem sized_wakePass (ids : List EventId) (st : SyncEngine env sealing room × Bool) :
    ids.foldl wakeOne (sizedPass st n) = sizedPass (ids.foldl wakeOne st) n := by
  induction ids generalizing st with
  | nil => rfl
  | cons id ids ih =>
    rw [List.foldl_cons, List.foldl_cons, sized_wakeOne]
    exact ih (wakeOne st id)

theorem sized_wakeParkLoop (fuel : Nat) (e : SyncEngine env sealing room) :
    wakeParkLoop fuel (e.sized n) = (wakeParkLoop fuel e).sized n := by
  induction fuel generalizing e with
  | zero => rfl
  | succ fuel ih =>
    have hpass : (e.sized n).park.keys.foldl wakeOne (e.sized n, false) =
        sizedPass (e.park.keys.foldl wakeOne (e, false)) n := sized_wakePass e.park.keys (e, false)
    unfold wakeParkLoop
    dsimp only
    rw [sized_ite, hpass]
    refine if_congr Iff.rfl ?_ rfl
    exact ih (e.park.keys.foldl wakeOne (e, false)).1

theorem sized_wakePark (e : SyncEngine env sealing room) : (e.sized n).wakePark = e.wakePark.sized n :=
  sized_wakeParkLoop _ e

theorem sized_finalizeDelivery (e : SyncEngine env sealing room) :
    (e.sized n).finalizeDelivery = e.finalizeDelivery.sized n := by
  unfold finalizeDelivery
  rw [sized_flushStoreBatch, sized_wakePark, sized_flushStoreBatch]

theorem sized_retryPark (e : SyncEngine env sealing room) : (e.sized n).retryPark = e.retryPark.sized n := by
  unfold retryPark
  rw [sized_wakePark]
  exact foldl_sized (fun (e : SyncEngine env sealing room) (p : IdentityKey × Nat × List EventId) =>
    sized_chase e p.1 p.2.1 p.2.2) _ e.wakePark

theorem sized_retryRestoredOne (e : SyncEngine env sealing room) (id : EventId) :
    (e.sized n).retryRestoredOne id = (e.retryRestoredOne id).sized n := by
  have hpark : (e.sized n).park = e.park := rfl
  unfold retryRestoredOne
  dsimp only
  rw [hpark]
  cases e.park.get? id with
  | none => rfl
  | some p =>
    exact sized_chase ({ e with
      restoredBackfill := OrdMap.erase e.restoredBackfill id } : SyncEngine env sealing room) _ _ _

theorem sized_retryRestoredPark (e : SyncEngine env sealing room) :
    (e.sized n).retryRestoredPark = e.retryRestoredPark.sized n := by
  unfold retryRestoredPark
  rw [sized_ite]
  refine if_congr Iff.rfl rfl ?_
  exact foldl_sized sized_retryRestoredOne e.restoredBackfill.toList e

theorem sized_expireSuspectTip (e : SyncEngine env sealing room) :
    (e.sized n).expireSuspectTip = e.expireSuspectTip.sized n := by
  have htip : (e.sized n).suspectTip = e.suspectTip := rfl
  unfold expireSuspectTip
  rw [htip]
  cases e.suspectTip with
  | none => rfl
  | some t =>
    dsimp only
    rw [sized_ite]
    rfl

theorem sized_handleAdminTip (e : SyncEngine env sealing room) (tip : Option (EventId × Nat)) :
    (e.sized n).handleAdminTip tip = (e.handleAdminTip tip).sized n := by
  have harmed : ∀ id seq, (e.sized n).armSuspectTip id seq = (e.armSuspectTip id seq).sized n := by
    intro id seq
    unfold armSuspectTip
    rw [sized_ite]
    rfl
  have hrecompute : ∀ f : SyncEngine env sealing room,
    (f.sized n).recomputeCompleteness = f.recomputeCompleteness.sized n := fun _ => rfl
  have hahead : (e.sized n).isAhead = e.isAhead := rfl
  unfold handleAdminTip
  rw [← hrecompute]
  cases tip with
  | none => rfl
  | some t =>
    dsimp only
    rw [sized_ite, harmed, hahead]

theorem sized_onTick (e : SyncEngine env sealing room) (hretry : e.storeRetry = .empty) :
    (e.sized n).onTick = e.onTick.sized n := by
  have hexpired : (e.sized n).refillTokens.expireSuspectTip = e.refillTokens.expireSuspectTip.sized n :=
    sized_expireSuspectTip e.refillTokens
  have hempty : e.refillTokens.expireSuspectTip.storeRetry = .empty :=
    (expireSuspectTip_shelves e.refillTokens).retry.trans hretry
  unfold onTick
  rw [hexpired, retryStore_of_empty (e := e.refillTokens.expireSuspectTip.sized n) hempty, retryStore_of_empty hempty,
    sized_retryPark, sized_retryRestoredPark]

/-! ### One delivery -/

theorem sized_settle (e : SyncEngine env sealing room) (v : ValidatedEvent env room) :
    (e.sized n).settle v = (e.settle v).sized n := by
  have hfold : ((e.ingestFold v).sized n).fold = (e.ingestFold v).fold := rfl
  unfold settle
  dsimp only
  rw [sized_ingestFold, hfold]
  cases (e.ingestFold v).fold.outcome v.eventId with
  | accepted _ flags => rfl
  | buffered _ missing => exact sized_onBuffered ..
  | rejected _ reason => rfl

theorem Alike.sized {a b : SyncEngine env sealing room} (h : Alike a b) (n : Nat) : Alike (a.sized n) (b.sized n) := by
  obtain ⟨x, rfl⟩ := h
  exact ⟨x, rfl⟩

theorem Tidy.sized (h : e.Tidy) (n : Nat) : (e.sized n).Tidy :=
  ⟨h.writes, h.retry, h.fresh.view ⟨rfl, rfl⟩, h.keyed, h.pending, h.seen, h.sought⟩

/-- The size a tidy engine had before does not matter. -/
theorem Tidy.of_sized (h : (e.sized n).Tidy) : e.Tidy := h.sized e.config.storeInsertBatchSize

variable {W : Universe} {frame : Frame} {e₁ e₂ : SyncEngine env sealing room}

/-- Once the batch is committed a delivery does not show the size. -/
theorem deliver_resized (h : e.Tidy) (hholds : (W.invariant env room).Holds e) (hv : W.Known v) (n : Nat) :
    Alike ((e.sized n).deliver v).flushStoreBatch ((e.deliver v).sized n).flushStoreBatch := by
  have hdoubts : (e.sized n).doubts v = e.doubts v := rfl
  rw [deliver_eq, deliver_eq, hdoubts]
  split_ifs
  · exact .refl _
  · have hsettled := enter_settles h.writes h.retry hholds.store hholds.pending fun id flags hout =>
      hholds.sound_of_accepted hv hout
    have hother : (W.invariant env room).Holds (e.sized n) := hholds
    have hsettled' := enter_settles (e := e.sized n) h.writes h.retry hother.store hother.pending fun id flags hout =>
      hother.sound_of_accepted hv hout
    rw [sized_flushStoreBatch, sized_settle] at hsettled'
    rw [sized_flushStoreBatch]
    exact hsettled'.symm.trans (hsettled.sized n)

theorem deliverFrame_resized (h : e.Tidy) (hholds : (W.invariant env room).Holds e)
    (hframe : (W.invariant env room).KnownFrame frame) (n : Nat) :
    Alike ((e.sized n).deliverFrame frame).flushStoreBatch ((e.deliverFrame frame).sized n).flushStoreBatch := by
  have hcache : (e.sized n).dedupCache = e.dedupCache := rfl
  unfold deliverFrame
  rw [hcache]
  split_ifs
  · exact .refl _
  · cases hv : validate env ⟨room, none⟩ frame.eventId frame.event with
    | ok v =>
      obtain ⟨hid, hevent⟩ := validate_ok hv
      exact deliver_resized h hholds (hframe v hid hevent) n
    | error reason => exact .refl _

/-! ### Two engines -/

/-- Engines that are paired up to their batch sizes stay so at a frame on which the gate cannot tell them apart. -/
theorem Paired.deliverFrame_resized (h : Paired W (e₁.sized n) e₂)
    (hframe : (W.invariant env room).KnownFrame frame) (hsteady : steadyFrame e₁ e₂ frame = true) :
    Paired W ((e₁.deliverFrame frame).sized n) (e₂.deliverFrame frame) := by
  have hholds : (W.invariant env room).Holds e₁ := h.holds₁
  have hpaired := h.deliverFrame hframe hsteady
  have hsame := SyncEngine.deliverFrame_resized h.tidy₁.of_sized hholds hframe n
  exact ⟨(h.tidy₁.of_sized.deliverFrame frame).sized n, hpaired.tidy₂, hholds.deliverFrame hframe, hpaired.holds₂,
    hsame.symm.trans hpaired.alike⟩

theorem Paired.deliverFrames_resized (frames : List Frame) (h : Paired W (e₁.sized n) e₂)
    (hframes : ∀ frame ∈ frames, (W.invariant env room).KnownFrame frame)
    (hsteady : steadyFrames frames e₁ e₂ = true) :
    Paired W ((frames.foldl SyncEngine.deliverFrame e₁).sized n) (frames.foldl SyncEngine.deliverFrame e₂) := by
  induction frames generalizing e₁ e₂ with
  | nil => exact h
  | cons frame frames ih =>
    rw [steadyFrames, Bool.and_eq_true] at hsteady
    have hone := h.deliverFrame_resized (hframes frame List.mem_cons_self) hsteady.1
    exact ih hone (fun f hf => hframes f (List.mem_cons_of_mem _ hf)) hsteady.2

theorem Paired.finalizeDelivery_resized (h : Paired W (e₁.sized n) e₂) :
    Alike (e₁.finalizeDelivery.sized n) e₂.finalizeDelivery := by
  rw [← sized_finalizeDelivery]
  exact h.finalizeDelivery

/-- The call does not reach what depends on the batch: the gate cannot tell the engines apart at any frame of a
message. -/
def steadyInput (e₁ e₂ : SyncEngine env sealing room) : Input → Bool
  | .onMessage msgRoom msg => decide (msgRoom ≠ room) || steadyFrames msg.frames e₁ e₂
  | _ => true

theorem Twin.onMessage_resized (h : Twin W (e₁.sized n) e₂) {msgRoom : RoomId} {msg : SyncMessage}
    (hframes : ∀ frame ∈ msg.frames, (W.invariant env room).KnownFrame frame)
    (hsteady : steadyInput e₁ e₂ (.onMessage msgRoom msg) = true) :
    Alike ((e₁.onMessage msgRoom msg).sized n) (e₂.onMessage msgRoom msg) := by
  unfold SyncEngine.onMessage
  rw [sized_ite]
  by_cases hroom : msgRoom ≠ room
  · rw [if_pos hroom, if_pos hroom]
    exact h.alike
  · rw [if_neg hroom, if_neg hroom]
    rw [steadyInput, Bool.or_eq_true, decide_eq_true_iff] at hsteady
    have hgate := hsteady.resolve_left hroom
    cases msg with
    | adminTip tip =>
      dsimp only
      rw [← sized_finalizeDelivery, ← sized_handleAdminTip]
      exact (h.alike.handleAdminTip tip).finalizeDelivery
    | events frames => exact (h.paired.deliverFrames_resized frames hframes hgate).finalizeDelivery_resized
    | terminalEvents frames => exact (h.paired.deliverFrames_resized frames hframes hgate).finalizeDelivery_resized
    | keyHistory chunks =>
      have hchunks : chunks.foldl adoptKeyHistoryChunk (e₁.sized n) = (chunks.foldl adoptKeyHistoryChunk e₁).sized n :=
        foldl_sized (fun _ _ => rfl) chunks e₁
      dsimp only
      rw [← sized_finalizeDelivery, ← hchunks]
      exact (Alike.foldl (fun chunk hc => hc.adoptKeyHistoryChunk chunk) chunks h.alike).finalizeDelivery
    | other =>
      dsimp only
      rw [← sized_finalizeDelivery]
      exact h.alike.finalizeDelivery

theorem Twin.publish_resized (h : Twin W (e₁.sized n) e₂) (hframe : (W.invariant env room).KnownFrame frame) :
    Alike ((e₁.step (.publish frame)).sized n) (e₂.step (.publish frame)) := by
  refine Alike.trans ?_ (h.alike.publish frame)
  have hgate : ∀ ty, writerGate (e₁.sized n).config ty = writerGate e₁.config ty := fun _ => rfl
  unfold SyncEngine.step SyncEngine.publish
  dsimp only
  split_ifs
  · exact .refl _
  · cases hv : validate env ⟨room, none⟩ frame.eventId frame.event with
    | error reason => exact .refl _
    | ok v =>
      obtain ⟨hid, hevent⟩ := validate_ok hv
      have hholds : (W.invariant env room).Holds e₁ := h.holds₁
      dsimp only
      rw [hgate]
      cases writerGate e₁.config v.event.eventType with
      | error err => exact .refl _
      | ok _ =>
        have hsame := deliver_resized h.rested₁.toTidy.of_sized hholds (hframe v hid hevent) n
        dsimp only
        rw [← sized_finalizeDelivery]
        exact hsame.symm.wakePark.flushStoreBatch

/-- One call. -/
theorem Twin.step_resized (h : Twin W (e₁.sized n) e₂) {input : Input}
    (hframes : ∀ frame ∈ input.frames, (W.invariant env room).KnownFrame frame)
    (hsteady : steadyInput e₁ e₂ input = true) : Twin W ((e₁.step input).sized n) (e₂.step input) := by
  have hrested : e₁.Rested := ⟨h.rested₁.toTidy.of_sized, h.rested₁.idle⟩
  have hholds : (W.invariant env room).Holds e₁ := h.holds₁
  have halike : Alike ((e₁.step input).sized n) (e₂.step input) := by
    cases input with
    | ingestFrame frame =>
      have hone := h.paired.deliverFrame_resized (hframes frame List.mem_cons_self)
        (steadyFrame_of_store h.alike.store frame)
      exact hone.finalizeDelivery_resized
    | publish frame => exact h.publish_resized (hframes frame List.mem_cons_self)
    | onConnect peer =>
      have hjoined : (e₁.sized n).onConnect peer = (e₁.onConnect peer).sized n :=
        sized_retryRestoredPark ({ e₁ with peers := e₁.peers.add peer } : SyncEngine env sealing room)
      have hsame := h.alike.onConnect peer
      rwa [hjoined] at hsame
    | onDisconnect peer => exact h.alike.onDisconnect peer
    | onMessage msgRoom msg => exact h.onMessage_resized hframes hsteady
    | onTick =>
      have hsame := h.alike.onTick
      rwa [sized_onTick e₁ hrested.retry] at hsame
    | insertRoomKey epoch key => exact h.alike.insertRoomKey epoch key
  exact ⟨halike, ⟨(hrested.step input).toTidy.sized n, (hrested.step input).idle⟩, h.rested₂.step input,
    hholds.step hframes, h.holds₂.step hframes⟩

/-! ### Runs -/

/-- Every call of a run is steady where the calls before it have led. -/
def steadyRun : List Input → SyncEngine env sealing room → SyncEngine env sealing room → Bool
  | [], _, _ => true
  | input :: inputs, e₁, e₂ => steadyInput e₁ e₂ input && steadyRun inputs (e₁.step input) (e₂.step input)

theorem Twin.run_resized (inputs : List Input) (h : Twin W (e₁.sized n) e₂)
    (hframes : ∀ input ∈ inputs, ∀ frame ∈ input.frames, (W.invariant env room).KnownFrame frame)
    (hsteady : steadyRun inputs e₁ e₂ = true) :
    Twin W ((inputs.foldl SyncEngine.step e₁).sized n) (inputs.foldl SyncEngine.step e₂) := by
  induction inputs generalizing e₁ e₂ with
  | nil => exact h
  | cons input inputs ih =>
    rw [steadyRun, Bool.and_eq_true] at hsteady
    have hone := h.step_resized (hframes input List.mem_cons_self) hsteady.1
    exact ih hone (fun i hi => hframes i (List.mem_cons_of_mem _ hi)) hsteady.2

/-- Two engines over one store whose writes succeed, with batches of any two sizes: a run of steady calls ends with the
same accepted events, snapshot, store and keys. -/
theorem batching_transparent {config : SyncConfig} {seed : Option SigningKey} {store : EventStore env room}
    {tables : SyncTables env room} (hwrites : store.writes = []) (hstoreOk : W.StoreOk store)
    (hparked : ∀ id p, tables.parked.get? id = some p → p.event.eventId = id ∧ W.Occurs id p.event.event)
    (hopen₁ : openEngine config seed store tables = .ok e₁)
    (hopen₂ : openEngine { config with storeInsertBatchSize := n } seed store tables = .ok e₂) {inputs : List Input}
    (hoccurs : ∀ input ∈ inputs, ∀ frame ∈ input.frames, W.Occurs frame.eventId frame.event)
    (hsteady : steadyRun inputs e₁ e₂ = true) :
    (∀ id, (inputs.foldl SyncEngine.step e₂).fold.isAccepted id =
        (inputs.foldl SyncEngine.step e₁).fold.isAccepted id) ∧
      (inputs.foldl SyncEngine.step e₂).snapshot = (inputs.foldl SyncEngine.step e₁).snapshot ∧
      (inputs.foldl SyncEngine.step e₂).store = (inputs.foldl SyncEngine.step e₁).store ∧
      (inputs.foldl SyncEngine.step e₂).keyRing = (inputs.foldl SyncEngine.step e₁).keyRing := by
  obtain rfl := openEngine_ok hopen₁
  obtain rfl := openEngine_ok hopen₂
  have hkept : ∀ c, (restore c seed store tables : SyncEngine env sealing room).Rested ∧
      (W.invariant env room).Holds (restore c seed store tables : SyncEngine env sealing room) :=
    fun c => restore_rested hwrites hstoreOk hparked c seed
  have hopened : Twin W ((restore config seed store tables : SyncEngine env sealing room).sized n)
      (restore { config with storeInsertBatchSize := n } seed store tables) :=
    ⟨.refl _, (hkept _).1, (hkept _).1, (hkept _).2, (hkept _).2⟩
  have hend := hopened.run_resized inputs (knownFrames_of_occurs hoccurs) hsteady
  obtain ⟨x, hx⟩ := hend.alike
  refine ⟨fun id => ?_, hend.paired.snapshot, hend.alike.store, ?_⟩
  · rw [hend.alike.fold]
    rfl
  · rw [hx]
    rfl

end SyncEngine

/-! ### The worked room -/

namespace Toy

def batching (size : Nat) : SyncConfig := { SyncConfig.standard with storeInsertBatchSize := size }

def batched (size : Nat) : SyncEngine toyEnv Toy.sealing Toy.room :=
  .restore (batching size) none (.openEmpty []) ⟨.empty, none, .empty, .empty⟩

def bundle (events : List (Nat × SignedEvent)) : SyncEngine.Input :=
  .onMessage Toy.room (.events (events.map frame))

/-- The room in one message, and once more. -/
def bundledTwice : List SyncEngine.Input := [bundle memberRoom, bundle memberRoom, .onTick]

/-- A stranger's message over one of the admin's, and another of the admin's over it. -/
def strangerBetween : List SyncEngine.Input :=
  [bundle [(1, genesis), (2, message 1 "a" [1]), (3, message 5 "x" [2]), (4, message 1 "c" [3])]]

/-- What the batch sizes come to, evaluated in one go. -/
theorem batched_computed :
    SyncEngine.steadyRun bundledTwice (batched 1) (batched 32) = true ∧
    (strangerBetween.foldl SyncEngine.step (batched 1)).fold.isAccepted (Bytes32.ofNat 4) = true ∧
    (strangerBetween.foldl SyncEngine.step (batched 32)).fold.isAccepted (Bytes32.ofNat 4) = false ∧
    (strangerBetween.foldl SyncEngine.step (batched 1)).store.contains (Bytes32.ofNat 4) = true ∧
    (strangerBetween.foldl SyncEngine.step (batched 32)).store.contains (Bytes32.ofNat 4) = false := by
  decide +kernel

theorem bundledTwice_occurs : ∀ input ∈ bundledTwice, ∀ f ∈ input.frames, memberUniverse.Occurs f.eventId f.event := by
  intro input hi f hf
  simp only [bundledTwice, List.mem_cons, List.not_mem_nil, or_false] at hi
  rcases hi with rfl | rfl | rfl
  · exact memberRoom_occurs f hf
  · exact memberRoom_occurs f hf
  · exact absurd hf List.not_mem_nil

end Toy

namespace SyncEngine

theorem batching_transparent_bundledTwice :
    steadyRun Toy.bundledTwice (Toy.batched 1) (Toy.batched 32) = true ∧
      (Toy.bundledTwice.foldl step (Toy.batched 32)).store = (Toy.bundledTwice.foldl step (Toy.batched 1)).store := by
  obtain ⟨hsteady, -⟩ := Toy.batched_computed
  have hopen₁ : openEngine (Toy.batching 1) none (.openEmpty []) ⟨.empty, none, .empty, .empty⟩ =
      .ok (Toy.batched 1) := rfl
  have hopen₂ : openEngine { Toy.batching 1 with storeInsertBatchSize := 32 } none (.openEmpty [])
      ⟨.empty, none, .empty, .empty⟩ = .ok (Toy.batched 32) := rfl
  have hparked : ∀ id p, (OrdMap.empty : OrdMap EventId (Parked toyEnv Toy.room)).get? id = some p →
      p.event.eventId = id ∧ Toy.memberUniverse.Occurs id p.event.event := fun _ _ hp => nomatch hp
  have hsame := batching_transparent rfl ((Toy.memberUniverse.invariant toyEnv Toy.room).storeEmpty [])
    hparked hopen₁ hopen₂ Toy.bundledTwice_occurs hsteady
  exact ⟨hsteady, hsame.2.2.1⟩

/-- With a batch of one the admin's message is stored when the stranger's is judged, which the fold then rejects, and
the last message is accepted. In a larger batch the admin's message still waits, so the stranger's is dropped and the
last message waits for it. -/
theorem batching_visible :
    openEngine (Toy.batching 1) none (.openEmpty []) ⟨.empty, none, .empty, .empty⟩ = .ok (Toy.batched 1) ∧
      openEngine (Toy.batching 32) none (.openEmpty []) ⟨.empty, none, .empty, .empty⟩ = .ok (Toy.batched 32) ∧
      (Toy.strangerBetween.foldl step (Toy.batched 1)).fold.isAccepted (Bytes32.ofNat 4) = true ∧
      (Toy.strangerBetween.foldl step (Toy.batched 32)).fold.isAccepted (Bytes32.ofNat 4) = false ∧
      (Toy.strangerBetween.foldl step (Toy.batched 1)).store.contains (Bytes32.ofNat 4) = true ∧
      (Toy.strangerBetween.foldl step (Toy.batched 32)).store.contains (Bytes32.ofNat 4) = false := by
  exact ⟨rfl, rfl, Toy.batched_computed.2⟩

end SyncEngine

end IrohRooms
