import IrohRooms.Sync.Tidy

/-!
# Two caches

Two engines over one store that differ in the size of the dedup cache. A frame that only one of them skips changes
nothing in the other: it is stored, judged and not looked for (`settle_held`). The engines are compared with their
batches committed, since a replayed event takes a place in the batch of the engine that does not skip it. Two things are
not so compared and do depend on the cache: the gate before the fold reads the store without the batch, and a replay by
itself makes the next tick pull. As long as neither decides (`steady`) the engines send the same messages and agree on
the fold, the store, the park and the keys after every call.
-/

namespace IrohRooms

variable {env : Env} {sealing : Sealing} {room : RoomId}

namespace SyncEngine

variable {e : SyncEngine env sealing room} {v : ValidatedEvent env room}

/-! ### A replay -/

theorem ingestFold_judged (h : e.Fresh) (hjudged : e.fold.result v.eventId ≠ none) : e.ingestFold v = e :=
  ingestFold_tracked h (RoomMembership.contains_of_result hjudged)

theorem unsought_of_not_sought (h : e.backfillDepth.contains v.eventId = false) : e.unsought v = e := by
  have hsame : e.backfillDepth.erase v.eventId = e.backfillDepth := by
    apply OrdMap.ext_get?
    intro id
    rw [OrdMap.get?_erase]
    split_ifs with hid
    · rw [hid]
      exact (Option.not_isSome_iff_eq_none.mp (Bool.not_eq_true _ ▸ h)).symm
    · rfl
  unfold unsought
  rw [hsame]

theorem landedBy_stored (h : e.store.contains v.eventId = true) : e.landedBy [v] = [(v, .duplicate)] := by
  have hsame := EventStore.insertInTx_duplicate h
  simp [landedBy, EventStore.insertAllInTx, hsame]

theorem committed_stored (hidle : e.pendingBatch = []) (h : e.store.contains v.eventId = true) :
    e.committed [v] = e := by
  have hsame := EventStore.insertInTx_duplicate h
  have hstore : (EventStore.insertAllInTx e.store [v]).1 = e.store := by
    simp [EventStore.insertAllInTx, hsame]
  unfold committed
  rw [landedBy_stored h, hstore, ← hidle]
  rfl

/-- A replay of what is stored and judged does nothing. -/
theorem Rested.settle_held (h : e.Rested) (hstored : e.store.contains v.eventId = true)
    (hjudged : e.fold.result v.eventId ≠ none) : e.settle v = e := by
  have hsought : e.backfillDepth.contains v.eventId = false := by
    by_contra hin
    have hno := h.sought v.eventId (Bool.not_eq_false _ ▸ hin)
    rw [hstored] at hno
    cases hno
  unfold SyncEngine.settle
  dsimp only
  rw [ingestFold_judged h.fresh hjudged, unsought_of_not_sought hsought]
  split
  · exact committed_stored h.idle hstored
  · rename_i hout
    exact absurd (RoomMembership.outcome_buffered hout) hjudged
  · rfl

variable (sending : Sending env room) (origin : Option PeerId)

theorem Rested.settleOut_held (h : e.Rested) (hstored : e.store.contains v.eventId = true)
    (hjudged : e.fold.result v.eventId ≠ none) : e.settleOut sending origin v = [] := by
  unfold SyncEngine.settleOut
  dsimp only
  rw [ingestFold_judged h.fresh hjudged, landedBy_stored hstored]
  split
  · rfl
  · rename_i hout
    exact absurd (RoomMembership.outcome_buffered hout) hjudged
  · rfl

/-! ### One frame -/

variable {W : Universe} {e₁ e₂ a b : SyncEngine env sealing room} {frame : Frame}

theorem admitted_eventId (h : v ∈ e.admitted frame) : v.eventId = frame.eventId ∧ v.event = frame.event := by
  unfold admitted at h
  split_ifs at h
  · exact absurd h List.not_mem_nil
  · split at h
    · rename_i w hw
      split_ifs at h
      · exact absurd h List.not_mem_nil
      · rw [List.mem_singleton.mp h]
        exact validate_ok hw
    · exact absurd h List.not_mem_nil

/-- A frame lets in at most one event. -/
theorem admitted_cases (e : SyncEngine env sealing room) (frame : Frame) :
    e.admitted frame = [] ∨ ∃ v, e.admitted frame = [v] := by
  unfold admitted
  split_ifs
  · exact Or.inl rfl
  · split
    · split_ifs
      · exact Or.inl rfl
      · exact Or.inr ⟨_, rfl⟩
    · exact Or.inl rfl

theorem deliverFrame_admitted (e : SyncEngine env sealing room) (frame : Frame) :
    e.deliverFrame frame = (e.admitted frame).foldl enter e := by
  unfold deliverFrame admitted
  split_ifs
  · rfl
  · cases validate env ⟨room, none⟩ frame.eventId frame.event with
    | ok v =>
      dsimp only
      rw [deliver_eq, doubts]
      split_ifs <;> rfl
    | error reason => rfl

theorem deliverFrameSent_admitted (e : SyncEngine env sealing room) (frame : Frame) :
    (e.deliverFrameSent sending origin frame).out =
      (e.admitted frame).flatMap fun v => (e.enterSent sending origin v).out := by
  unfold deliverFrameSent admitted
  split_ifs
  · rfl
  · cases validate env ⟨room, none⟩ frame.eventId frame.event with
    | ok v =>
      dsimp only
      rw [deliverSent_eq, doubts]
      split_ifs
      · rfl
      · exact (List.append_nil _).symm
    | error reason => rfl

/-- What a frame sends once the batch before it is committed. -/
def frameOut (e : SyncEngine env sealing room) (frame : Frame) : List Outgoing :=
  (e.admitted frame).flatMap (e.flushStoreBatch.settleOut sending origin)

theorem Tidy.deliverFrame_settles (h : e.Tidy) (hholds : (W.invariant env room).Holds e)
    (hframe : (W.invariant env room).KnownFrame frame) :
    Alike ((e.admitted frame).foldl SyncEngine.settle e.flushStoreBatch) (e.deliverFrame frame).flushStoreBatch := by
  rw [deliverFrame_admitted]
  rcases e.admitted_cases frame with hnone | ⟨v, hone⟩
  · rw [hnone]
    exact .refl _
  · rw [hone]
    obtain ⟨hid, hevent⟩ := admitted_eventId (hone ▸ List.mem_singleton_self v)
    exact enter_settles h.writes h.retry hholds.store hholds.pending fun id flags hout =>
      hholds.sound_of_accepted (hframe v hid hevent) hout

theorem Tidy.deliverFrame_sends (h : e.Tidy) (frame : Frame) :
    (e.deliverFrameSent sending origin frame).out ++ ((e.deliverFrame frame).flushSent sending origin).out =
      (e.flushSent sending origin).out ++ e.frameOut sending origin frame := by
  rw [deliverFrame_admitted, deliverFrameSent_admitted, frameOut]
  rcases e.admitted_cases frame with hnone | ⟨v, hone⟩
  · rw [hnone]
    exact (List.append_nil _).symm
  · rw [hone]
    simpa using enter_sends h.writes h.retry v

/-! ### Two engines inside a call -/

/-- Two engines with their books in order that are alike once their batches are committed. -/
structure Paired (W : Universe) (e₁ e₂ : SyncEngine env sealing room) : Prop where
  tidy₁ : e₁.Tidy
  tidy₂ : e₂.Tidy
  holds₁ : (W.invariant env room).Holds e₁
  holds₂ : (W.invariant env room).Holds e₂
  alike : Alike e₁.flushStoreBatch e₂.flushStoreBatch

theorem Paired.symm (h : Paired W e₁ e₂) : Paired W e₂ e₁ := ⟨h.tidy₂, h.tidy₁, h.holds₂, h.holds₁, h.alike.symm⟩

theorem Paired.snapshot (h : Paired W e₁ e₂) : e₂.snapshot = e₁.snapshot := by
  have hflushed : e₂.flushStoreBatch.snapshot = e₁.flushStoreBatch.snapshot := by
    obtain ⟨x, hx⟩ := h.alike
    rw [hx]
    rfl
  have hview₁ := congrArg MembershipProjectionCache.snapshot e₁.flushStoreBatch_view.2
  have hview₂ := congrArg MembershipProjectionCache.snapshot e₂.flushStoreBatch_view.2
  exact hview₂.symm.trans (hflushed.trans hview₁)

/-- What the cache holds stays stored and judged when the batch is committed. -/
theorem Tidy.seen_flushed (h : e.Tidy) (hcached : e.dedupCache.contains v.eventId = true) :
    e.flushStoreBatch.store.contains v.eventId = true ∧ e.flushStoreBatch.fold.result v.eventId ≠ none := by
  obtain ⟨hstored, hjudged⟩ := h.seen v.eventId hcached
  rw [(committed_flushStoreBatch h.writes h.retry).store, e.flushStoreBatch_view.1]
  exact ⟨((EventStore.insertAllInTx_spec _ _).2.2.1 _).mpr (Or.inl hstored), hjudged⟩

/-- What one of the engines skips the other settles to no effect. -/
theorem Paired.settle_cached (h : Paired W e₁ e₂) (hcached : e₂.dedupCache.contains v.eventId = true) :
    Alike (e₁.flushStoreBatch.settle v) e₂.flushStoreBatch := by
  obtain ⟨hstored, hjudged⟩ := h.tidy₂.seen_flushed hcached
  have hsettled := h.alike.settle v
  rwa [h.tidy₂.flushStoreBatch.settle_held hstored hjudged] at hsettled

theorem Paired.settleOut_cached (h : Paired W e₁ e₂) (hcached : e₂.dedupCache.contains v.eventId = true) :
    e₁.flushStoreBatch.settleOut sending origin v = [] := by
  obtain ⟨hstored, hjudged⟩ := h.tidy₂.seen_flushed hcached
  rw [← h.alike.settleOut v]
  exact h.tidy₂.flushStoreBatch.settleOut_held sending origin hstored hjudged

/-- The gate before the fold cannot tell the engines apart: one of them skips the frame, its signer is plausible, or
both stores have its parents or both lack one. -/
def steadyFrame (e₁ e₂ : SyncEngine env sealing room) (frame : Frame) : Bool :=
  e₁.dedupCache.contains frame.eventId || e₂.dedupCache.contains frame.eventId ||
    match validate env ⟨room, none⟩ frame.eventId frame.event with
    | .ok v => e₁.signerPlausible v || e₁.wouldBuffer v == e₂.wouldBuffer v
    | .error _ => true

/-- With the same rows the gate decides alike. -/
theorem steadyFrame_of_store (h : e₂.store = e₁.store) (frame : Frame) : steadyFrame e₁ e₂ frame = true := by
  have hsame : ∀ v : ValidatedEvent env room, e₂.wouldBuffer v = e₁.wouldBuffer v := by
    intro v
    unfold wouldBuffer
    rw [h]
  unfold steadyFrame
  cases validate env ⟨room, none⟩ frame.eventId frame.event with
  | ok v =>
    dsimp only
    rw [hsame v, beq_self_eq_true, Bool.or_true, Bool.or_true]
  | error reason => exact Bool.or_true _

/-- The engines let in the same, or one of them skips what the other lets in. -/
theorem Paired.admitted (h : Paired W e₁ e₂) (hsteady : steadyFrame e₁ e₂ frame = true) :
    e₂.admitted frame = e₁.admitted frame ∨
      (e₂.admitted frame = [] ∧ e₂.dedupCache.contains frame.eventId = true) ∨
      (e₁.admitted frame = [] ∧ e₁.dedupCache.contains frame.eventId = true) := by
  by_cases hcached₂ : e₂.dedupCache.contains frame.eventId = true
  · exact Or.inr (Or.inl ⟨if_pos hcached₂, hcached₂⟩)
  by_cases hcached₁ : e₁.dedupCache.contains frame.eventId = true
  · exact Or.inr (Or.inr ⟨if_pos hcached₁, hcached₁⟩)
  left
  have hplausible : e₂.signerPlausible = e₁.signerPlausible := by
    funext v
    unfold signerPlausible
    rw [h.snapshot]
  unfold steadyFrame at hsteady
  unfold SyncEngine.admitted
  rw [if_neg hcached₁, if_neg hcached₂, hplausible]
  rw [Bool.not_eq_true] at hcached₁ hcached₂
  rw [hcached₁, hcached₂, Bool.false_or, Bool.false_or] at hsteady
  split
  · rename_i v hv
    rw [hv] at hsteady
    dsimp only at hsteady
    rw [Bool.or_eq_true, beq_iff_eq] at hsteady
    rcases hsteady with hknown | hsame
    · rw [hknown, Bool.not_true, Bool.and_false, Bool.and_false]
    · rw [hsame]
  · rfl

/-- What the second engine skips has no effect on the first one. -/
theorem Paired.settles_skipped (h : Paired W e₁ e₂) (hcached : e₂.dedupCache.contains frame.eventId = true) :
    Alike ((e₁.admitted frame).foldl SyncEngine.settle e₁.flushStoreBatch) e₂.flushStoreBatch := by
  rcases e₁.admitted_cases frame with hnone | ⟨v, hone⟩
  · rw [hnone]
    exact h.alike
  · have hid := (admitted_eventId (hone ▸ List.mem_singleton_self v)).1
    rw [hone]
    exact h.settle_cached (hid ▸ hcached)

theorem Paired.frameOut_skipped (h : Paired W e₁ e₂) (hcached : e₂.dedupCache.contains frame.eventId = true) :
    e₁.frameOut sending origin frame = [] := by
  unfold frameOut
  rcases e₁.admitted_cases frame with hnone | ⟨v, hone⟩
  · rw [hnone]
    rfl
  · have hid := (admitted_eventId (hone ▸ List.mem_singleton_self v)).1
    rw [hone, List.flatMap_cons, h.settleOut_cached sending origin (hid ▸ hcached)]
    rfl

theorem Paired.deliverFrame (h : Paired W e₁ e₂) (hframe : (W.invariant env room).KnownFrame frame)
    (hsteady : steadyFrame e₁ e₂ frame = true) : Paired W (e₁.deliverFrame frame) (e₂.deliverFrame frame) := by
  have hsettled₁ := h.tidy₁.deliverFrame_settles h.holds₁ hframe
  have hsettled₂ := h.tidy₂.deliverFrame_settles h.holds₂ hframe
  have hmeet : Alike ((e₁.admitted frame).foldl SyncEngine.settle e₁.flushStoreBatch)
      ((e₂.admitted frame).foldl SyncEngine.settle e₂.flushStoreBatch) := by
    rcases h.admitted hsteady with hsame | ⟨hnone, hcached⟩ | ⟨hnone, hcached⟩
    · rw [hsame]
      exact Alike.foldl (fun v hv => hv.settle v) _ h.alike
    · rw [hnone]
      exact h.settles_skipped hcached
    · rw [hnone]
      exact (h.symm.settles_skipped hcached).symm
  refine ⟨h.tidy₁.deliverFrame frame, h.tidy₂.deliverFrame frame, h.holds₁.deliverFrame hframe,
    h.holds₂.deliverFrame hframe, ?_⟩
  exact (hsettled₁.symm.trans hmeet).trans hsettled₂

theorem Paired.frameOut (h : Paired W e₁ e₂) (hsteady : steadyFrame e₁ e₂ frame = true) :
    e₂.frameOut sending origin frame = e₁.frameOut sending origin frame := by
  rcases h.admitted hsteady with hsame | ⟨hnone, hcached⟩ | ⟨hnone, hcached⟩
  · unfold SyncEngine.frameOut
    rw [hsame]
    exact congrArg (fun out => (e₁.admitted frame).flatMap out) (funext fun v => h.alike.settleOut v)
  · rw [h.frameOut_skipped sending origin hcached, SyncEngine.frameOut, hnone]
    rfl
  · rw [h.symm.frameOut_skipped sending origin hcached, SyncEngine.frameOut, hnone]
    rfl

/-! ### The frames of a message -/

def framesOut : List Frame → SyncEngine env sealing room → List Outgoing
  | [], _ => []
  | frame :: frames, e => e.frameOut sending origin frame ++ framesOut frames (e.deliverFrame frame)

/-- Each frame is judged where the frames before it have led. -/
def steadyFrames : List Frame → SyncEngine env sealing room → SyncEngine env sealing room → Bool
  | [], _, _ => true
  | frame :: frames, e₁, e₂ =>
    steadyFrame e₁ e₂ frame && steadyFrames frames (e₁.deliverFrame frame) (e₂.deliverFrame frame)

theorem Tidy.deliverFrames_sends (frames : List Frame) (h : e.Tidy) :
    (deliverFramesSent sending origin frames e).out ++
        ((frames.foldl SyncEngine.deliverFrame e).flushSent sending origin).out =
      (e.flushSent sending origin).out ++ framesOut sending origin frames e := by
  induction frames generalizing e with
  | nil => exact (List.append_nil _).symm
  | cons frame frames ih =>
    have hone := h.deliverFrame_sends sending origin frame
    rw [deliverFramesSent, framesOut, List.foldl_cons, Sent.append_out, List.append_assoc, ih (h.deliverFrame frame),
      ← List.append_assoc, hone, List.append_assoc]

theorem Paired.deliverFrames (frames : List Frame) (h : Paired W e₁ e₂)
    (hframes : ∀ frame ∈ frames, (W.invariant env room).KnownFrame frame)
    (hsteady : steadyFrames frames e₁ e₂ = true) :
    Paired W (frames.foldl SyncEngine.deliverFrame e₁) (frames.foldl SyncEngine.deliverFrame e₂) ∧
      framesOut sending origin frames e₂ = framesOut sending origin frames e₁ := by
  induction frames generalizing e₁ e₂ with
  | nil => exact ⟨h, rfl⟩
  | cons frame frames ih =>
    rw [steadyFrames, Bool.and_eq_true] at hsteady
    have hone := h.deliverFrame (hframes frame List.mem_cons_self) hsteady.1
    obtain ⟨hrest, houts⟩ := ih hone (fun f hf => hframes f (List.mem_cons_of_mem _ hf)) hsteady.2
    exact ⟨hrest, by rw [framesOut, framesOut, h.frameOut sending origin hsteady.1, houts]⟩

/-! ### The end of a call -/

/-- What the end of a call sends after the batch. -/
def closingOut (e : SyncEngine env sealing room) : List Outgoing :=
  (e.wakeParkSent sending).out ++ (e.wakePark.flushSent sending origin).out

theorem finalizeSent_out (e : SyncEngine env sealing room) : (e.finalizeSent sending origin).out =
    (e.flushSent sending origin).out ++ e.flushStoreBatch.closingOut sending origin := by
  rw [finalizeSent, Sent.append_out, Sent.append_out, closingOut, List.append_assoc]

theorem Paired.finalizeDelivery (h : Paired W e₁ e₂) : Alike e₁.finalizeDelivery e₂.finalizeDelivery :=
  h.alike.wakePark.flushStoreBatch

theorem Paired.closingOut (h : Paired W e₁ e₂) :
    e₂.flushStoreBatch.closingOut sending origin = e₁.flushStoreBatch.closingOut sending origin := by
  rw [SyncEngine.closingOut, SyncEngine.closingOut, h.alike.wakeParkSent, h.alike.wakePark.flushSent]

/-! ### Two engines between calls -/

structure Twin (W : Universe) (e₁ e₂ : SyncEngine env sealing room) : Prop where
  alike : Alike e₁ e₂
  rested₁ : e₁.Rested
  rested₂ : e₂.Rested
  holds₁ : (W.invariant env room).Holds e₁
  holds₂ : (W.invariant env room).Holds e₂

theorem Twin.paired (h : Twin W e₁ e₂) : Paired W e₁ e₂ := by
  refine ⟨h.rested₁.toTidy, h.rested₂.toTidy, h.holds₁, h.holds₂, ?_⟩
  rw [flushStoreBatch_of_pending h.rested₁.idle, flushStoreBatch_of_pending h.rested₂.idle]
  exact h.alike

theorem Twin.step_of_alike (h : Twin W e₁ e₂) {input : Input}
    (hframes : ∀ frame ∈ input.frames, (W.invariant env room).KnownFrame frame)
    (halike : Alike (e₁.step input) (e₂.step input)) : Twin W (e₁.step input) (e₂.step input) :=
  ⟨halike, h.rested₁.step input, h.rested₂.step input, h.holds₁.step hframes, h.holds₂.step hframes⟩

/-- An engine opened on a store of the room, under any configuration, is between calls. -/
theorem restore_rested {store : EventStore env room} {tables : SyncTables env room} (hwrites : store.writes = [])
    (hstoreOk : W.StoreOk store)
    (hparked : ∀ id p, tables.parked.get? id = some p → p.event.eventId = id ∧ W.Occurs id p.event.event)
    (config : SyncConfig) (seed : Option SigningKey) :
    (restore config seed store tables : SyncEngine env sealing room).Rested ∧
      (W.invariant env room).Holds (restore config seed store tables : SyncEngine env sealing room) := by
  constructor
  · exact rested_restore hwrites hstoreOk.1 (fun id p hp => (hparked id p hp).1) config seed
  · exact .restore hstoreOk (fun {id p} hp => Universe.known_of_filed (hparked id p hp)) config seed

/-! ### Messages -/

/-- A message other than one with frames is handled alike. -/
theorem Alike.dispatched (h : Alike a b) {body : MessageBody} (hplain : body.isContent = false) :
    Alike (a.dispatched body.toSync) (b.dispatched body.toSync) := by
  cases body with
  | adminTip tip => exact h.handleAdminTip tip
  | events frames => cases hplain
  | terminalEvents frames ids nonce => cases hplain
  | keyHistory chunks => exact Alike.foldl (fun chunk hc => hc.adoptKeyHistoryChunk chunk) chunks h
  | _ => exact h

theorem Alike.dispatchedSent (h : Alike a b) (claimRotation : Nat) (sender : PeerId) {body : MessageBody}
    (hplain : body.isContent = false) :
    b.dispatchedSent sending claimRotation sender body = a.dispatchedSent sending claimRotation sender body := by
  cases body with
  | adminTip tip => simp only [SyncEngine.dispatchedSent, h.handleAdminTipOut]
  | events frames => cases hplain
  | terminalEvents frames ids nonce => cases hplain
  | wantKeyHistory haveEpochs => simp only [SyncEngine.dispatchedSent, h.serveWantKeyHistory]
  | _ => simp only [SyncEngine.dispatchedSent, h.pulled]

/-- Frames delivered in a call are answered alike, up to its end. -/
theorem Twin.deliverFrames (h : Twin W e₁ e₂) (frames : List Frame)
    (hframes : ∀ frame ∈ frames, (W.invariant env room).KnownFrame frame)
    (hsteady : steadyFrames frames e₁ e₂ = true) :
    Alike (frames.foldl SyncEngine.deliverFrame e₁).finalizeDelivery
        (frames.foldl SyncEngine.deliverFrame e₂).finalizeDelivery ∧
      (deliverFramesSent sending origin frames e₂ ++
          (frames.foldl SyncEngine.deliverFrame e₂).finalizeSent sending origin).out =
        (deliverFramesSent sending origin frames e₁ ++
          (frames.foldl SyncEngine.deliverFrame e₁).finalizeSent sending origin).out := by
  obtain ⟨hpaired, hout⟩ := h.paired.deliverFrames sending origin frames hframes hsteady
  -- nothing waits at the start, so what a batch owes is sent by its own frames
  have hsends : ∀ e : SyncEngine env sealing room, e.Rested → (deliverFramesSent sending origin frames e ++
      (frames.foldl SyncEngine.deliverFrame e).finalizeSent sending origin).out =
        framesOut sending origin frames e ++
          (frames.foldl SyncEngine.deliverFrame e).flushStoreBatch.closingOut sending origin := by
    intro e hr
    rw [Sent.append_out, finalizeSent_out, ← List.append_assoc, hr.toTidy.deliverFrames_sends,
      flushSent_of_pending hr.idle]
    rfl
  refine ⟨hpaired.finalizeDelivery, ?_⟩
  rw [hsends e₁ h.rested₁, hsends e₂ h.rested₂, hout, hpaired.closingOut]

theorem Twin.onMessage (h : Twin W e₁ e₂) {msg : RoomMessage}
    (hframes : ∀ frame ∈ msg.body.toSync.frames, (W.invariant env room).KnownFrame frame)
    (hsteady : msg.roomId = room → steadyFrames msg.body.toSync.frames e₁ e₂ = true)
    (claimRotation : Nat) (sender : PeerId) :
    Alike (e₁.onMessage msg.roomId msg.body.toSync) (e₂.onMessage msg.roomId msg.body.toSync) ∧
      e₂.onMessageOut sending claimRotation sender msg = e₁.onMessageOut sending claimRotation sender msg := by
  by_cases hroom : msg.roomId = room
  · have honMessage : ∀ e : SyncEngine env sealing room,
        e.onMessage msg.roomId msg.body.toSync = (e.dispatched msg.body.toSync).finalizeDelivery :=
      fun _ => if_neg (not_not.mpr hroom)
    have hhandled : Alike (e₁.dispatched msg.body.toSync).finalizeDelivery
          (e₂.dispatched msg.body.toSync).finalizeDelivery ∧
        (e₂.dispatchedSent sending claimRotation sender msg.body ++
            (e₂.dispatched msg.body.toSync).finalizeSent sending (some sender)).out =
          (e₁.dispatchedSent sending claimRotation sender msg.body ++
            (e₁.dispatched msg.body.toSync).finalizeSent sending (some sender)).out := by
      cases hcontent : msg.body.isContent with
      | true =>
        obtain ⟨_, body⟩ := msg
        cases body with
        | events frames => exact h.deliverFrames sending (some sender) frames hframes (hsteady hroom)
        | terminalEvents frames ids nonce => exact h.deliverFrames sending (some sender) frames hframes (hsteady hroom)
        | _ => cases hcontent
      | false =>
        have hstate := h.alike.dispatched hcontent
        rw [h.alike.dispatchedSent sending claimRotation sender hcontent, hstate.finalizeSent]
        exact ⟨hstate.finalizeDelivery, rfl⟩
    unfold onMessageOut
    rw [honMessage, honMessage, if_neg (not_not.mpr hroom), if_neg (not_not.mpr hroom), hhandled.2,
      hhandled.1.receipt sender msg.body]
    exact ⟨hhandled.1, rfl⟩
  · unfold onMessageOut SyncEngine.onMessage
    rw [if_pos hroom, if_pos hroom, if_pos hroom, if_pos hroom]
    exact ⟨h.alike, rfl⟩

theorem Twin.ingestFrame (h : Twin W e₁ e₂) (hframe : (W.invariant env room).KnownFrame frame) (sender : PeerId) :
    Alike (e₁.ingestFrame frame) (e₂.ingestFrame frame) ∧
      (e₂.ingestFrameSent sending sender frame).out = (e₁.ingestFrameSent sending sender frame).out := by
  have hsteady : steadyFrames [frame] e₁ e₂ = true := by
    rw [steadyFrames, steadyFrame_of_store h.alike.store]
    rfl
  obtain ⟨halike, hout⟩ := h.deliverFrames sending (some sender) [frame]
    (fun f hf => List.mem_singleton.mp hf ▸ hframe) hsteady
  refine ⟨halike, ?_⟩
  simpa [ingestFrameSent, deliverFramesSent, Sent.nothing] using hout

/-- A frame that both skip or neither does. -/
theorem Alike.ingestFrameSent (h : Alike a b) (hcache : b.dedupCache.contains frame.eventId =
    a.dedupCache.contains frame.eventId) (sender : PeerId) :
    b.ingestFrameSent sending sender frame = a.ingestFrameSent sending sender frame := by
  unfold SyncEngine.ingestFrameSent deliverFrameSent SyncEngine.deliverFrame
  rw [hcache]
  split_ifs
  · rw [h.finalizeSent]
  · cases validate env ⟨room, none⟩ frame.eventId frame.event with
    | ok v =>
      dsimp only
      rw [h.deliverSent, (h.deliver v).finalizeSent]
    | error reason =>
      dsimp only
      rw [h.finalizeSent]

end SyncEngine

/-! ### Calls and runs -/

namespace SyncNode

variable (sending : Sending env room) {W : Universe} {n₁ n₂ : SyncNode env sealing room}

/-- Nodes whose engines are alike, with the same counters. -/
structure Twins (W : Universe) (n₁ n₂ : SyncNode env sealing room) : Prop where
  engine : SyncEngine.Twin W n₁.engine n₂.engine
  claimRotation : n₂.claimRotation = n₁.claimRotation
  forceNextTickPull : n₂.forceNextTickPull = n₁.forceNextTickPull
  pullSweepRemaining : n₂.pullSweepRemaining = n₁.pullSweepRemaining

/-- The call does not reach what depends on the cache: a frame by itself is skipped by both engines or by neither,
unless the next tick pulls anyway, and the gate cannot tell the engines apart at any frame of a message. -/
def steadyCall (n₁ n₂ : SyncNode env sealing room) : Call → Bool
  | .ingestFrame _ f => n₁.forceNextTickPull ||
      n₁.engine.dedupCache.contains f.eventId == n₂.engine.dedupCache.contains f.eventId
  | .onMessage _ msg => decide (msg.roomId ≠ room) ||
      SyncEngine.steadyFrames msg.body.toSync.frames n₁.engine n₂.engine
  | _ => true

/-- Every call of a run is steady where the calls before it have led. -/
def steady : List Call → SyncNode env sealing room → SyncNode env sealing room → Bool
  | [], _, _ => true
  | c :: cs, n₁, n₂ => steadyCall n₁ n₂ c && steady cs (n₁.step sending c) (n₂.step sending c)

theorem step_onTick (n : SyncNode env sealing room) : n.step sending .onTick =
    ⟨n.engine.step .onTick, n.nextRotation, false, n.sweep sending - 1⟩ := rfl

theorem Twins.onTick (h : Twins W n₁ n₂) :
    Twins W (n₁.step sending .onTick) (n₂.step sending .onTick) ∧
      n₂.sends sending .onTick = n₁.sends sending .onTick := by
  have halike := h.engine.alike.onTick
  have hretries := h.engine.alike.retriesSent sending
  have hsweep : n₂.sweep sending = n₁.sweep sending := by
    unfold sweep
    rw [h.forceNextTickPull, h.pullSweepRemaining, hretries, halike.peers]
  have hrotation : n₂.nextRotation = n₁.nextRotation := by
    unfold nextRotation
    rw [h.claimRotation]
  have hengine : SyncEngine.Twin W (n₁.engine.step .onTick) (n₂.engine.step .onTick) :=
    h.engine.step_of_alike (fun _ hf => absurd hf List.not_mem_nil) halike
  have hout : n₂.onTickOut sending = n₁.onTickOut sending := by
    unfold onTickOut
    rw [hretries, hrotation, hsweep, halike.advertised, halike.hasPendingSyncWork]
  refine ⟨?_, hout⟩
  rw [step_onTick, step_onTick]
  -- the fields are reduced first: the steps themselves are not to be unfolded
  refine ⟨?_, hrotation, rfl, by rw [hsweep]⟩
  dsimp only
  exact hengine

/-- What a call stirs is the same, or a pull is due anyway. -/
theorem Twins.stirs (h : Twins W n₁ n₂) {c : Call} (hsteady : steadyCall n₁ n₂ c = true) :
    (n₂.forceNextTickPull || n₂.stirs sending c) = (n₁.forceNextTickPull || n₁.stirs sending c) := by
  rw [h.forceNextTickPull]
  cases c with
  | ingestFrame sender f =>
    unfold steadyCall at hsteady
    rw [Bool.or_eq_true, beq_iff_eq] at hsteady
    rcases hsteady with hforced | hcache
    · rw [hforced, Bool.true_or, Bool.true_or]
    · simp only [SyncNode.stirs, h.engine.alike.ingestFrameSent sending hcache.symm]
  | publish f => simp only [SyncNode.stirs, h.engine.alike.publishSent]
  | _ => rfl

/-- One call: the nodes stay twins and send the same. -/
theorem Twins.step (h : Twins W n₁ n₂) {c : Call}
    (hframes : ∀ frame ∈ c.input.frames, (W.invariant env room).KnownFrame frame)
    (hsteady : steadyCall n₁ n₂ c = true) :
    Twins W (n₁.step sending c) (n₂.step sending c) ∧ n₂.sends sending c = n₁.sends sending c := by
  have hstirs := h.stirs sending hsteady
  have hengine := h.engine.step_of_alike hframes
  cases c with
  | ingestFrame sender f =>
    obtain ⟨halike, hout⟩ := h.engine.ingestFrame sending (hframes f List.mem_cons_self) sender
    exact ⟨⟨hengine halike, h.claimRotation, hstirs, h.pullSweepRemaining⟩, hout⟩
  | publish f =>
    refine ⟨⟨hengine (h.engine.alike.publish f), h.claimRotation, hstirs, h.pullSweepRemaining⟩, ?_⟩
    exact congrArg Sent.out (h.engine.alike.publishSent sending f)
  | onConnect peer =>
    refine ⟨⟨hengine (h.engine.alike.onConnect peer), h.claimRotation, hstirs, h.pullSweepRemaining⟩, ?_⟩
    show n₂.engine.onConnectOut sending n₂.claimRotation peer = n₁.engine.onConnectOut sending n₁.claimRotation peer
    rw [h.claimRotation, h.engine.alike.onConnectOut]
  | onDisconnect peer =>
    exact ⟨⟨hengine (h.engine.alike.onDisconnect peer), h.claimRotation, hstirs, h.pullSweepRemaining⟩, rfl⟩
  | onMessage sender msg =>
    have hsteadyFrames : msg.roomId = room →
        SyncEngine.steadyFrames msg.body.toSync.frames n₁.engine n₂.engine = true := by
      intro hroom
      simpa [steadyCall, hroom] using hsteady
    obtain ⟨halike, hout⟩ := h.engine.onMessage sending hframes hsteadyFrames n₁.claimRotation sender
    refine ⟨⟨hengine halike, h.claimRotation, hstirs, h.pullSweepRemaining⟩, ?_⟩
    show n₂.engine.onMessageOut sending n₂.claimRotation sender msg = _
    rw [h.claimRotation]
    exact hout
  | onTick => exact h.onTick sending
  | insertRoomKey epoch key =>
    exact ⟨⟨hengine (h.engine.alike.insertRoomKey epoch key), h.claimRotation, hstirs, h.pullSweepRemaining⟩, rfl⟩

theorem Twins.run (calls : List Call) (h : Twins W n₁ n₂)
    (hframes : ∀ c ∈ calls, ∀ frame ∈ c.input.frames, (W.invariant env room).KnownFrame frame)
    (hsteady : steady sending calls n₁ n₂ = true) :
    Twins W (calls.foldl (SyncNode.step sending) n₁) (calls.foldl (SyncNode.step sending) n₂) ∧
      n₂.trace sending calls = n₁.trace sending calls := by
  induction calls generalizing n₁ n₂ with
  | nil => exact ⟨h, rfl⟩
  | cons c calls ih =>
    rw [steady, Bool.and_eq_true] at hsteady
    obtain ⟨hone, hsent⟩ := h.step sending (hframes c List.mem_cons_self) hsteady.1
    obtain ⟨hrest, htrace⟩ := ih hone (fun d hd => hframes d (List.mem_cons_of_mem _ hd)) hsteady.2
    exact ⟨hrest, by rw [trace, trace, hsent, htrace]⟩

/-- Engines opened on one store with caches of two sizes. -/
theorem twin_opened {config : SyncConfig} {seed : Option SigningKey} {store : EventStore env room}
    {tables : SyncTables env room} {cap : Nat} (hwrites : store.writes = []) (hstoreOk : W.StoreOk store)
    (hparked : ∀ id p, tables.parked.get? id = some p → p.event.eventId = id ∧ W.Occurs id p.event.event) :
    SyncEngine.Twin W (SyncEngine.restore config seed store tables : SyncEngine env sealing room)
      (SyncEngine.restore { config with earlyEventIdDedupCacheEntries := cap } seed store tables) := by
  have hkept : ∀ c, (SyncEngine.restore c seed store tables : SyncEngine env sealing room).Rested ∧
      (W.invariant env room).Holds (SyncEngine.restore c seed store tables : SyncEngine env sealing room) :=
    fun c => SyncEngine.restore_rested hwrites hstoreOk hparked c seed
  refine ⟨?_, (hkept _).1, (hkept _).1, (hkept _).2, (hkept _).2⟩
  exact ⟨(SyncEngine.restore { config with earlyEventIdDedupCacheEntries := cap } seed store tables :
    SyncEngine env sealing room).hidden, rfl⟩

/-- Two engines over one store whose writes succeed, with dedup caches of any two sizes: in a run of steady calls they
send the same messages call by call and end with the same fold, snapshot, store, park and keys. -/
theorem dedup_transparent {config : SyncConfig} {seed : Option SigningKey} {store : EventStore env room}
    {tables : SyncTables env room} {cap : Nat} {e₁ e₂ : SyncEngine env sealing room} (hwrites : store.writes = [])
    (hstoreOk : W.StoreOk store)
    (hparked : ∀ id p, tables.parked.get? id = some p → p.event.eventId = id ∧ W.Occurs id p.event.event)
    (hopen₁ : SyncEngine.openEngine config seed store tables = .ok e₁)
    (hopen₂ : SyncEngine.openEngine { config with earlyEventIdDedupCacheEntries := cap } seed store tables = .ok e₂)
    {calls : List Call} (hoccurs : ∀ c ∈ calls, ∀ frame ∈ c.input.frames, W.Occurs frame.eventId frame.event)
    (hsteady : steady sending calls (opened e₁) (opened e₂) = true) :
    (opened e₂).trace sending calls = (opened e₁).trace sending calls ∧
      (calls.foldl (step sending) (opened e₂)).engine.fold = (calls.foldl (step sending) (opened e₁)).engine.fold ∧
      (calls.foldl (step sending) (opened e₂)).engine.snapshot =
        (calls.foldl (step sending) (opened e₁)).engine.snapshot ∧
      (calls.foldl (step sending) (opened e₂)).engine.store = (calls.foldl (step sending) (opened e₁)).engine.store ∧
      (calls.foldl (step sending) (opened e₂)).engine.park = (calls.foldl (step sending) (opened e₁)).engine.park ∧
      (calls.foldl (step sending) (opened e₂)).engine.keyRing =
        (calls.foldl (step sending) (opened e₁)).engine.keyRing := by
  obtain rfl := SyncEngine.openEngine_ok hopen₁
  obtain rfl := SyncEngine.openEngine_ok hopen₂
  have hopened : Twins W (opened (SyncEngine.restore config seed store tables : SyncEngine env sealing room))
      (opened (SyncEngine.restore { config with earlyEventIdDedupCacheEntries := cap } seed store tables)) :=
    ⟨twin_opened hwrites hstoreOk hparked, rfl, rfl, rfl⟩
  have hknown : ∀ c ∈ calls, ∀ frame ∈ c.input.frames, (W.invariant env room).KnownFrame frame :=
    fun c hc frame hframe => Universe.knownFrame_of_occurs (hoccurs c hc frame hframe)
  obtain ⟨hend, htrace⟩ := hopened.run sending calls hknown hsteady
  have halike := hend.engine.alike
  refine ⟨htrace, halike.fold, ?_, halike.store, halike.park, ?_⟩
  · exact hend.engine.paired.snapshot
  · obtain ⟨x, hx⟩ := halike
    rw [hx]

end SyncNode

/-! ### The worked room

Two nodes of the worked room, one without a cache, with batches of two events. -/

namespace Toy

/-- The standard bounds; no key is wrapped. -/
def sending : Sending toyEnv Toy.room where
  toServing := ⟨512, 200, 1000, fun _ => 300⟩
  maxBackfillFanoutIds := 256
  pullFanoutPeers := 3
  membershipHaveMaxIds := 512
  wrapRoomKey _ _ _ := none
  chunkLen _ := 0

def cached (cap : Nat) : SyncConfig :=
  { SyncConfig.standard with storeInsertBatchSize := 2, earlyEventIdDedupCacheEntries := cap }

def caching (cap : Nat) : SyncEngine toyEnv Toy.sealing Toy.room :=
  .restore (cached cap) none (.openEmpty []) ⟨.empty, none, .empty, .empty⟩

def told (events : List (Nat × SignedEvent)) : Call := .onMessage (device 2) ⟨Toy.room, .events (events.map frame)⟩

/-- The room is told twice. -/
def toldTwice : List Call := [.onConnect (device 2), told memberRoom, told memberRoom, .onTick]

/-- The replayed genesis fills the batch, so that the next message is committed before the stranger's one above it is
judged; the last message cites the stranger's. -/
def crowdedReplay : List Call := [told [(1, genesis)],
  told [(1, genesis), (2, message 1 "a" [1]), (3, message 5 "x" [2]), (4, message 1 "c" [3])]]

/-- The genesis comes again by itself after a quiet tick. -/
def loneReplay : List Call := [.onConnect (device 2), told [(1, genesis)], .onTick,
  .ingestFrame (device 2) (frame (1, genesis)), .onTick]

theorem memberRoom_occurs : ∀ f ∈ memberRoom.map frame, memberUniverse.Occurs f.eventId f.event := by
  intro f hf
  obtain ⟨p, hp, rfl⟩ := List.mem_map.mp hf
  exact event?_roomOf (by decide) hp

theorem toldTwice_occurs : ∀ c ∈ toldTwice, ∀ f ∈ c.input.frames, memberUniverse.Occurs f.eventId f.event := by
  intro c hc f hf
  simp only [toldTwice, List.mem_cons, List.not_mem_nil, or_false] at hc
  rcases hc with rfl | rfl | rfl | rfl
  · exact absurd hf List.not_mem_nil
  · exact memberRoom_occurs f hf
  · exact memberRoom_occurs f hf
  · exact absurd hf List.not_mem_nil

end Toy

namespace SyncNode

theorem dedup_transparent_toldTwice :
    steady Toy.sending Toy.toldTwice (opened (Toy.caching 16)) (opened (Toy.caching 0)) = true ∧
      (opened (Toy.caching 0)).trace Toy.sending Toy.toldTwice =
        (opened (Toy.caching 16)).trace Toy.sending Toy.toldTwice ∧
      (Toy.toldTwice.foldl (step Toy.sending) (opened (Toy.caching 0))).engine.store =
        (Toy.toldTwice.foldl (step Toy.sending) (opened (Toy.caching 16))).engine.store := by
  have hsteady : steady Toy.sending Toy.toldTwice (opened (Toy.caching 16)) (opened (Toy.caching 0)) = true := by
    decide +kernel
  have hopen₁ : SyncEngine.openEngine (Toy.cached 16) none (.openEmpty []) ⟨.empty, none, .empty, .empty⟩ =
      .ok (Toy.caching 16) := rfl
  have hopen₂ : SyncEngine.openEngine { Toy.cached 16 with earlyEventIdDedupCacheEntries := 0 } none (.openEmpty [])
      ⟨.empty, none, .empty, .empty⟩ = .ok (Toy.caching 0) := rfl
  have hparked : ∀ id p, (OrdMap.empty : OrdMap EventId (Parked toyEnv Toy.room)).get? id = some p →
      p.event.eventId = id ∧ Toy.memberUniverse.Occurs id p.event.event := fun _ _ hp => nomatch hp
  have hsame := dedup_transparent Toy.sending rfl ((Toy.memberUniverse.invariant toyEnv Toy.room).storeEmpty [])
    hparked hopen₁ hopen₂ Toy.toldTwice_occurs hsteady
  exact ⟨hsteady, hsame.1, hsame.2.2.2.1⟩

/-- Where the runs are not steady the cache shows: a replay decides whether the stranger's message is dropped and with
it where the message above goes, and a replay by itself makes the next tick ask for more. -/
theorem dedup_visible :
    (SyncEngine.openEngine (Toy.cached 0) none (.openEmpty []) ⟨.empty, none, .empty, .empty⟩ = .ok (Toy.caching 0) ∧
      SyncEngine.openEngine (Toy.cached 16) none (.openEmpty []) ⟨.empty, none, .empty, .empty⟩ =
        .ok (Toy.caching 16)) ∧
      ((Toy.crowdedReplay.foldl (step Toy.sending) (opened (Toy.caching 0))).engine.store.contains (Bytes32.ofNat 4) =
          true ∧
        (Toy.crowdedReplay.foldl (step Toy.sending) (opened (Toy.caching 16))).engine.store.contains (Bytes32.ofNat 4) =
          false ∧
        (Toy.crowdedReplay.foldl (step Toy.sending) (opened (Toy.caching 0))).engine.fold.isAccepted (Bytes32.ofNat 4) =
          true ∧
        (Toy.crowdedReplay.foldl (step Toy.sending) (opened (Toy.caching 16))).engine.fold.isAccepted
          (Bytes32.ofNat 4) = false ∧
        (Toy.crowdedReplay.foldl (step Toy.sending) (opened (Toy.caching 0))).engine.park.keys = [] ∧
        (Toy.crowdedReplay.foldl (step Toy.sending) (opened (Toy.caching 16))).engine.park.keys = [Bytes32.ofNat 4]) ∧
      (opened (Toy.caching 0)).trace Toy.sending Toy.loneReplay ≠
        (opened (Toy.caching 16)).trace Toy.sending Toy.loneReplay := by
  refine ⟨⟨rfl, rfl⟩, by decide +kernel, fun hsame => ?_⟩
  have hlengths := congrArg (List.map List.length) hsame
  exact absurd hlengths (by decide +kernel)

end SyncNode

end IrohRooms
