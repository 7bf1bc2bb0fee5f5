import IrohRooms.Sync.Sends

/-!
# Engines that differ in the dedup cache

The cache of persisted ids is read in one place, before a frame is validated; and the verdict on completeness and the
fail-closed set are not read by the engine at all. Two engines that agree on everything else (`Alike`) take the same
steps and send the same messages, except where a frame is looked up in the cache.
-/

namespace IrohRooms

variable {env : Env} {sealing : Sealing} {room : RoomId}

namespace SyncEngine

/-- What a step reads nowhere but in front of validation, or not at all. -/
structure Hidden where
  earlyEventIdDedupCacheEntries : Nat
  completeness : Completeness
  failClosed : OrdSet IdentityKey
  dedupCache : EventIdDedupCache

/-- The hidden parts of an engine. -/
def hidden (e : SyncEngine env sealing room) : Hidden :=
  ⟨e.config.earlyEventIdDedupCacheEntries, e.completeness, e.failClosed, e.dedupCache⟩

/-- The engine with other hidden parts. -/
abbrev under (e : SyncEngine env sealing room) (x : Hidden) : SyncEngine env sealing room :=
  { e with
    config := { e.config with earlyEventIdDedupCacheEntries := x.earlyEventIdDedupCacheEntries }
    completeness := x.completeness
    failClosed := x.failClosed
    dedupCache := x.dedupCache }

/-- The engines agree on all but the hidden parts. -/
def Alike (a b : SyncEngine env sealing room) : Prop := ∃ x, b = a.under x

namespace Alike

variable {a b c : SyncEngine env sealing room}

theorem refl (a : SyncEngine env sealing room) : Alike a a := ⟨a.hidden, rfl⟩

theorem symm (h : Alike a b) : Alike b a := by
  obtain ⟨x, rfl⟩ := h
  exact ⟨a.hidden, rfl⟩

theorem trans (h : Alike a b) (h' : Alike b c) : Alike a c := by
  obtain ⟨x, rfl⟩ := h
  obtain ⟨y, rfl⟩ := h'
  exact ⟨y, rfl⟩

theorem fold (h : Alike a b) : b.fold = a.fold := by
  obtain ⟨x, rfl⟩ := h
  rfl

theorem store (h : Alike a b) : b.store = a.store := by
  obtain ⟨x, rfl⟩ := h
  rfl

theorem park (h : Alike a b) : b.park = a.park := by
  obtain ⟨x, rfl⟩ := h
  rfl

theorem peers (h : Alike a b) : b.peers = a.peers := by
  obtain ⟨x, rfl⟩ := h
  rfl

theorem pendingBatch (h : Alike a b) : b.pendingBatch = a.pendingBatch := by
  obtain ⟨x, rfl⟩ := h
  rfl

/-! ### Persistence -/

theorem recomputeCompleteness (h : Alike a b) : Alike a.recomputeCompleteness b.recomputeCompleteness := by
  obtain ⟨x, rfl⟩ := h
  exact ⟨(a.under x).recomputeCompleteness.hidden, rfl⟩

theorem armSuspectTip (h : Alike a b) (id : EventId) (seq : Nat) :
    Alike (a.armSuspectTip id seq) (b.armSuspectTip id seq) := by
  obtain ⟨x, rfl⟩ := h
  unfold SyncEngine.armSuspectTip
  dsimp only [under]
  split_ifs
  all_goals exact ⟨x, rfl⟩

theorem handleAdminTip (h : Alike a b) (tip : Option (EventId × Nat)) :
    Alike (a.handleAdminTip tip) (b.handleAdminTip tip) := by
  have harmed := h.armSuspectTip
  obtain ⟨x, rfl⟩ := h
  unfold SyncEngine.handleAdminTip
  apply recomputeCompleteness
  cases tip with
  | none => exact ⟨x, rfl⟩
  | some t =>
    have hahead : (a.under x).isAhead t.1 t.2 = a.isAhead t.1 t.2 := rfl
    dsimp only
    rw [hahead]
    split_ifs
    · exact harmed t.1 t.2
    · exact ⟨x, rfl⟩

theorem expireSuspectTip (h : Alike a b) : Alike a.expireSuspectTip b.expireSuspectTip := by
  obtain ⟨x, rfl⟩ := h
  unfold SyncEngine.expireSuspectTip
  dsimp only [under]
  split
  · exact ⟨x, rfl⟩
  · split_ifs
    · exact recomputeCompleteness ⟨x, rfl⟩
    · exact ⟨x, rfl⟩

theorem applyInsertOutcome (h : Alike a b) (outcome : InsertOutcome) (v : ValidatedEvent env room) :
    Alike (a.applyInsertOutcome outcome v) (b.applyInsertOutcome outcome v) := by
  obtain ⟨x, rfl⟩ := h
  cases outcome with
  | inserted => exact recomputeCompleteness ⟨{ x with dedupCache := x.dedupCache.insert v.eventId }, rfl⟩
  | duplicate => exact ⟨{ x with dedupCache := x.dedupCache.insert v.eventId }, rfl⟩

theorem enqueueStoreRetry (h : Alike a b) (v : ValidatedEvent env room) :
    Alike (a.enqueueStoreRetry v) (b.enqueueStoreRetry v) := by
  obtain ⟨x, rfl⟩ := h
  unfold SyncEngine.enqueueStoreRetry
  dsimp only [under]
  split_ifs
  all_goals exact ⟨x, rfl⟩

theorem applyLanded (h : Alike a b) (landed : ValidatedEvent env room × InsertOutcome) :
    Alike (a.applyLanded landed) (b.applyLanded landed) := by
  apply applyInsertOutcome
  obtain ⟨x, rfl⟩ := h
  exact ⟨x, rfl⟩

theorem foldl {α : Type} {f : SyncEngine env sealing room → α → SyncEngine env sealing room}
    (hf : ∀ {a b} y, Alike a b → Alike (f a y) (f b y)) (l : List α) (h : Alike a b) :
    Alike (l.foldl f a) (l.foldl f b) := by
  induction l generalizing a b with
  | nil => exact h
  | cons y l ih => exact ih (hf y h)

theorem flushStoreBatch (h : Alike a b) : Alike a.flushStoreBatch b.flushStoreBatch := by
  obtain ⟨x, rfl⟩ := h
  unfold SyncEngine.flushStoreBatch
  dsimp only [under]
  split_ifs
  · exact ⟨x, rfl⟩
  · split
    · exact foldl (fun landed hl => hl.applyLanded landed) _ ⟨x, rfl⟩
    · exact foldl (fun v hv => hv.enqueueStoreRetry v) _ ⟨x, rfl⟩

theorem storeAndFanout (h : Alike a b) (v : ValidatedEvent env room) :
    Alike (a.storeAndFanout v) (b.storeAndFanout v) := by
  obtain ⟨x, rfl⟩ := h
  unfold SyncEngine.storeAndFanout
  dsimp only [under]
  split
  · exact applyLanded ⟨x, rfl⟩ _
  · exact enqueueStoreRetry ⟨x, rfl⟩ v

theorem retryStoreLoop (ids : List EventId) (h : Alike a b) :
    Alike (SyncEngine.retryStoreLoop ids a) (SyncEngine.retryStoreLoop ids b) := by
  induction ids generalizing a b with
  | nil => exact h
  | cons id ids ih =>
    obtain ⟨x, rfl⟩ := h
    unfold SyncEngine.retryStoreLoop
    dsimp only [under]
    split
    · exact ih ⟨x, rfl⟩
    · split
      · exact ih (applyInsertOutcome ⟨x, rfl⟩ _ _)
      · unfold SyncEngine.failRetry
        dsimp only
        split_ifs
        all_goals exact ⟨x, rfl⟩

theorem retryStore (h : Alike a b) : Alike a.retryStore b.retryStore := by
  have hloop := h.retryStoreLoop a.retryOrder
  obtain ⟨x, rfl⟩ := h
  exact hloop

/-! ### The fold and the park -/

theorem ingestFold (h : Alike a b) (v : ValidatedEvent env room) : Alike (a.ingestFold v) (b.ingestFold v) := by
  obtain ⟨x, rfl⟩ := h
  unfold SyncEngine.ingestFold SyncEngine.refreshMembershipProjectionIfNeeded
  dsimp only [under]
  split_ifs
  all_goals exact ⟨x, rfl⟩

theorem evictParked (h : Alike a b) (id : EventId) : Alike (a.evictParked id) (b.evictParked id) := by
  obtain ⟨x, rfl⟩ := h
  exact ⟨x, rfl⟩

theorem enforceTotal (fuel : Nat) (h : Alike a b) :
    Alike (SyncEngine.enforceTotal fuel a) (SyncEngine.enforceTotal fuel b) := by
  induction fuel generalizing a b with
  | zero => exact h
  | succ fuel ih =>
    have hevicted := h.evictParked
    obtain ⟨x, rfl⟩ := h
    unfold SyncEngine.enforceTotal
    have holdest : (a.under x).oldestParked none = a.oldestParked none := rfl
    rw [holdest]
    dsimp only
    split_ifs
    · split
      · exact ih (hevicted _)
      · exact ⟨x, rfl⟩
    · exact ⟨x, rfl⟩

theorem enforceAuthor (h : Alike a b) (author : IdentityKey) :
    Alike (a.enforceAuthor author) (b.enforceAuthor author) := by
  have hevicted := h.evictParked
  obtain ⟨x, rfl⟩ := h
  unfold SyncEngine.enforceAuthor
  have holdest : (a.under x).oldestParked (some author) = a.oldestParked (some author) := rfl
  rw [holdest]
  dsimp only
  split_ifs
  · split
    · exact hevicted _
    · exact ⟨x, rfl⟩
  · exact ⟨x, rfl⟩

theorem parkFrame (h : Alike a b) (v : ValidatedEvent env room) (depth : Nat) (missing : List EventId) :
    Alike (a.parkFrame v depth missing) (b.parkFrame v depth missing) := by
  obtain ⟨y, hcapped⟩ := (h.enforceTotal (a.park.entries.length + 1)).enforceAuthor v.event.senderId
  have hsame := h.park
  unfold SyncEngine.parkFrame
  rw [hsame]
  split_ifs
  · exact h
  · dsimp only
    rw [hcapped]
    exact ⟨y, rfl⟩

theorem chase (h : Alike a b) (author : IdentityKey) (depth : Nat) (missing : List EventId) :
    Alike (a.chase author depth missing) (b.chase author depth missing) := by
  obtain ⟨x, rfl⟩ := h
  unfold SyncEngine.chase SyncEngine.takeBackfillToken
  have hworth : (a.under x).worthBackfilling = a.worthBackfilling := rfl
  rw [hworth]
  dsimp only [under]
  split_ifs
  all_goals exact ⟨x, rfl⟩

theorem onBuffered (h : Alike a b) (v : ValidatedEvent env room) (missing : List EventId) :
    Alike (a.onBuffered v missing) (b.onBuffered v missing) := by
  have hparked := h.parkFrame v ((a.backfillDepth.get? v.eventId).getD 0) missing
  obtain ⟨x, rfl⟩ := h
  have hsigner : (a.under x).signerPlausible v = a.signerPlausible v := rfl
  have hpark := hparked.park
  unfold SyncEngine.onBuffered
  rw [hsigner]
  dsimp only at hpark ⊢
  split_ifs
  · exact ⟨x, rfl⟩
  · exact ⟨x, rfl⟩
  · rw [hpark]
    split
    · exact hparked
    · exact hparked.chase _ _ _

/-- Looking at one parked frame does and sends the same. -/
theorem wakeOne {st st' : SyncEngine env sealing room × Bool} (h : Alike st.1 st'.1) (hflag : st'.2 = st.2)
    (id : EventId) : Alike (SyncEngine.wakeOne st id).1 (SyncEngine.wakeOne st' id).1 ∧
      (SyncEngine.wakeOne st' id).2 = (SyncEngine.wakeOne st id).2 := by
  have hpark := h.park
  unfold SyncEngine.wakeOne
  rw [hpark]
  cases st.1.park.get? id with
  | none => exact ⟨h, hflag⟩
  | some p =>
    have hfolded := h.ingestFold p.event
    dsimp only
    rw [hfolded.fold]
    split
    · exact ⟨(hfolded.evictParked id).storeAndFanout p.event, rfl⟩
    · exact ⟨hfolded.evictParked id, rfl⟩
    · exact ⟨hfolded, hflag⟩

theorem wakePass (ids : List EventId) {st st' : SyncEngine env sealing room × Bool} (h : Alike st.1 st'.1)
    (hflag : st'.2 = st.2) : Alike (ids.foldl SyncEngine.wakeOne st).1 (ids.foldl SyncEngine.wakeOne st').1 ∧
      (ids.foldl SyncEngine.wakeOne st').2 = (ids.foldl SyncEngine.wakeOne st).2 := by
  induction ids generalizing st st' with
  | nil => exact ⟨h, hflag⟩
  | cons id ids ih =>
    obtain ⟨hone, hflag⟩ := wakeOne h hflag id
    exact ih hone hflag

theorem wakeParkLoop (fuel : Nat) (h : Alike a b) :
    Alike (SyncEngine.wakeParkLoop fuel a) (SyncEngine.wakeParkLoop fuel b) := by
  induction fuel generalizing a b with
  | zero => exact h
  | succ fuel ih =>
    have hstart : Alike ((a, false) : SyncEngine env sealing room × Bool).1 (b, false).1 := h
    have hpass := wakePass a.park.keys hstart rfl
    unfold SyncEngine.wakeParkLoop
    rw [h.park]
    dsimp only
    rw [hpass.2]
    split_ifs
    · exact ih hpass.1
    · exact hpass.1

theorem wakePark (h : Alike a b) : Alike a.wakePark b.wakePark := by
  unfold SyncEngine.wakePark
  rw [h.park]
  exact h.wakeParkLoop _

theorem retryPark (h : Alike a b) : Alike a.retryPark b.retryPark := by
  have hwoken := h.wakePark
  unfold SyncEngine.retryPark
  dsimp only
  rw [hwoken.park]
  exact foldl (fun p hp => hp.chase p.1 p.2.1 p.2.2) _ hwoken

theorem retryRestoredOne (h : Alike a b) (id : EventId) : Alike (a.retryRestoredOne id) (b.retryRestoredOne id) := by
  obtain ⟨x, rfl⟩ := h
  unfold SyncEngine.retryRestoredOne
  dsimp only [under]
  split
  · exact ⟨x, rfl⟩
  · exact chase ⟨x, rfl⟩ _ _ _

theorem retryRestoredPark (h : Alike a b) : Alike a.retryRestoredPark b.retryRestoredPark := by
  obtain ⟨x, rfl⟩ := h
  unfold SyncEngine.retryRestoredPark
  dsimp only [under]
  split_ifs
  · exact ⟨x, rfl⟩
  · exact foldl (fun id hid => hid.retryRestoredOne id) _ ⟨x, rfl⟩

/-! ### Delivery -/

theorem deliver (h : Alike a b) (v : ValidatedEvent env room) : Alike (a.deliver v) (b.deliver v) := by
  obtain ⟨y, hfolded⟩ := h.ingestFold v
  obtain ⟨x, rfl⟩ := h
  have hbuffer : (a.under x).wouldBuffer v = a.wouldBuffer v := rfl
  have hsigner : (a.under x).signerPlausible v = a.signerPlausible v := rfl
  unfold SyncEngine.deliver
  rw [hbuffer, hsigner]
  split_ifs
  · exact ⟨x, rfl⟩
  · dsimp only
    rw [hfolded]
    dsimp only [under]
    split
    · split_ifs
      · exact flushStoreBatch ⟨y, rfl⟩
      · exact ⟨y, rfl⟩
    · exact (flushStoreBatch ⟨y, rfl⟩).onBuffered v _
    · exact flushStoreBatch ⟨y, rfl⟩

theorem finalizeDelivery (h : Alike a b) : Alike a.finalizeDelivery b.finalizeDelivery :=
  h.flushStoreBatch.wakePark.flushStoreBatch

theorem onTick (h : Alike a b) : Alike a.onTick b.onTick := by
  have hrefilled : Alike a.refillTokens b.refillTokens := by
    obtain ⟨x, rfl⟩ := h
    exact ⟨x, rfl⟩
  exact hrefilled.expireSuspectTip.retryStore.retryPark.retryRestoredPark

theorem writerGate (h : Alike a b) : SyncEngine.writerGate b.config = SyncEngine.writerGate a.config := by
  obtain ⟨x, rfl⟩ := h
  rfl

theorem publish (h : Alike a b) (f : Frame) : Alike (a.step (.publish f)) (b.step (.publish f)) := by
  unfold SyncEngine.step SyncEngine.publish
  rw [h.writerGate]
  dsimp only
  split_ifs
  · exact h
  · cases validate env ⟨room, none⟩ f.eventId f.event with
    | error reason => exact h
    | ok v =>
      dsimp only
      cases SyncEngine.writerGate a.config v.event.eventType with
      | error reason => exact h
      | ok _ => exact (h.deliver v).finalizeDelivery

theorem onConnect (h : Alike a b) (peer : PeerId) : Alike (a.onConnect peer) (b.onConnect peer) := by
  obtain ⟨x, rfl⟩ := h
  exact retryRestoredPark ⟨x, rfl⟩

theorem onDisconnect (h : Alike a b) (peer : PeerId) : Alike (a.onDisconnect peer) (b.onDisconnect peer) := by
  obtain ⟨x, rfl⟩ := h
  exact ⟨x, rfl⟩

theorem adoptKeyHistoryChunk (h : Alike a b) (chunk : KeyHistoryChunk) :
    Alike (a.adoptKeyHistoryChunk chunk) (b.adoptKeyHistoryChunk chunk) := by
  obtain ⟨x, rfl⟩ := h
  exact ⟨x, rfl⟩

theorem insertRoomKey (h : Alike a b) (epoch : Nat) (key : RoomKey) :
    Alike (a.insertRoomKey epoch key) (b.insertRoomKey epoch key) := by
  obtain ⟨x, rfl⟩ := h
  exact ⟨x, rfl⟩

/-! ### What is sent -/

variable (sending : Sending env room) (origin : Option PeerId)

theorem flushSent (h : Alike a b) : b.flushSent sending origin = a.flushSent sending origin := by
  obtain ⟨x, rfl⟩ := h
  rfl

theorem storeSent (h : Alike a b) (v : ValidatedEvent env room) :
    b.storeSent sending origin v = a.storeSent sending origin v := by
  obtain ⟨x, rfl⟩ := h
  rfl

theorem chaseOut (h : Alike a b) (targets : List PeerId) (author : IdentityKey) (missing : List EventId) :
    b.chaseOut sending targets author missing = a.chaseOut sending targets author missing := by
  obtain ⟨x, rfl⟩ := h
  rfl

theorem backfillTargets (h : Alike a b) : b.backfillTargets origin = a.backfillTargets origin := by
  obtain ⟨x, rfl⟩ := h
  rfl

theorem onBufferedOut (h : Alike a b) (v : ValidatedEvent env room) (missing : List EventId) :
    b.onBufferedOut sending origin v missing = a.onBufferedOut sending origin v missing := by
  have hparked := h.parkFrame v ((a.backfillDepth.get? v.eventId).getD 0) missing
  have htargets := hparked.backfillTargets origin
  obtain ⟨x, rfl⟩ := h
  have hsigner : (a.under x).signerPlausible v = a.signerPlausible v := rfl
  have hpark := hparked.park
  unfold SyncEngine.onBufferedOut
  rw [hsigner]
  dsimp only at hpark htargets ⊢
  rw [hpark, htargets]
  split_ifs
  · rfl
  · rfl
  · split
    · rfl
    · exact hparked.chaseOut sending _ _ _

theorem wakeOneSent {st st' : SyncEngine env sealing room × Bool} (h : Alike st.1 st'.1) (id : EventId) :
    SyncEngine.wakeOneSent sending st' id = SyncEngine.wakeOneSent sending st id := by
  unfold SyncEngine.wakeOneSent
  rw [h.park]
  cases st.1.park.get? id with
  | none => rfl
  | some p =>
    have hfolded := h.ingestFold p.event
    dsimp only
    rw [hfolded.fold]
    split
    · exact (hfolded.evictParked id).storeSent sending none p.event
    · rfl
    · rfl

theorem wakePassSent (ids : List EventId) {st st' : SyncEngine env sealing room × Bool} (h : Alike st.1 st'.1)
    (hflag : st'.2 = st.2) :
    SyncEngine.wakePassSent sending ids st' = SyncEngine.wakePassSent sending ids st := by
  induction ids generalizing st st' with
  | nil => rfl
  | cons id ids ih =>
    obtain ⟨hone, hflag⟩ := wakeOne h hflag id
    rw [SyncEngine.wakePassSent, SyncEngine.wakePassSent, h.wakeOneSent sending id, ih hone hflag]

theorem wakeParkLoopSent (fuel : Nat) (h : Alike a b) :
    SyncEngine.wakeParkLoopSent sending fuel b = SyncEngine.wakeParkLoopSent sending fuel a := by
  induction fuel generalizing a b with
  | zero => rfl
  | succ fuel ih =>
    have hstart : Alike ((a, false) : SyncEngine env sealing room × Bool).1 (b, false).1 := h
    have hpass := wakePass a.park.keys hstart rfl
    unfold SyncEngine.wakeParkLoopSent
    rw [h.park]
    dsimp only
    rw [hpass.2, wakePassSent sending a.park.keys hstart rfl, ih hpass.1]

theorem wakeParkSent (h : Alike a b) : b.wakeParkSent sending = a.wakeParkSent sending := by
  unfold SyncEngine.wakeParkSent
  rw [h.park]
  exact h.wakeParkLoopSent sending _

theorem chasesOut (ps : List (IdentityKey × Nat × List EventId)) (h : Alike a b) :
    SyncEngine.chasesOut sending ps b = SyncEngine.chasesOut sending ps a := by
  induction ps generalizing a b with
  | nil => rfl
  | cons p ps ih =>
    rw [SyncEngine.chasesOut, SyncEngine.chasesOut, h.peers, h.chaseOut, ih (h.chase p.1 p.2.1 p.2.2)]

theorem retryParkSent (h : Alike a b) : b.retryParkSent sending = a.retryParkSent sending := by
  have hwoken := h.wakePark
  unfold SyncEngine.retryParkSent
  rw [h.wakeParkSent sending, hwoken.park, hwoken.chasesOut sending]

theorem retryRestoredOneOut (h : Alike a b) (id : EventId) :
    b.retryRestoredOneOut sending id = a.retryRestoredOneOut sending id := by
  obtain ⟨x, rfl⟩ := h
  rfl

theorem retryRestoredLoopOut (ids : List EventId) (h : Alike a b) :
    SyncEngine.retryRestoredLoopOut sending ids b = SyncEngine.retryRestoredLoopOut sending ids a := by
  induction ids generalizing a b with
  | nil => rfl
  | cons id ids ih =>
    rw [SyncEngine.retryRestoredLoopOut, SyncEngine.retryRestoredLoopOut, h.retryRestoredOneOut sending id,
      ih (h.retryRestoredOne id)]

theorem retryRestoredParkOut (h : Alike a b) : b.retryRestoredParkOut sending = a.retryRestoredParkOut sending := by
  have hloop := fun ids => h.retryRestoredLoopOut sending ids
  obtain ⟨x, rfl⟩ := h
  unfold SyncEngine.retryRestoredParkOut
  rw [hloop]

theorem deliverSent (h : Alike a b) (v : ValidatedEvent env room) :
    b.deliverSent sending origin v = a.deliverSent sending origin v := by
  obtain ⟨y, hfolded⟩ := h.ingestFold v
  obtain ⟨x, rfl⟩ := h
  have hbuffer : (a.under x).wouldBuffer v = a.wouldBuffer v := rfl
  have hsigner : (a.under x).signerPlausible v = a.signerPlausible v := rfl
  have hflushed : Alike (a.ingestFold v).flushStoreBatch ((a.ingestFold v).under y).flushStoreBatch :=
    flushStoreBatch ⟨y, rfl⟩
  unfold SyncEngine.deliverSent
  rw [hbuffer, hsigner]
  split_ifs
  · rfl
  · dsimp only
    rw [hfolded]
    have hfold : ((a.ingestFold v).under y).fold = (a.ingestFold v).fold := rfl
    rw [hfold]
    split
    · rfl
    · rw [hflushed.onBufferedOut sending origin v]
      rfl
    · rfl

theorem finalizeSent (h : Alike a b) : b.finalizeSent sending origin = a.finalizeSent sending origin := by
  have hflushed := h.flushStoreBatch
  unfold SyncEngine.finalizeSent
  rw [h.flushSent, hflushed.wakeParkSent, hflushed.wakePark.flushSent]

theorem publishSent (h : Alike a b) (f : Frame) : b.publishSent sending f = a.publishSent sending f := by
  unfold SyncEngine.publishSent SyncEngine.publish
  rw [h.writerGate]
  split_ifs
  · rfl
  · cases validate env ⟨room, none⟩ f.eventId f.event with
    | error reason => rfl
    | ok v =>
      dsimp only
      cases SyncEngine.writerGate a.config v.event.eventType with
      | error reason => rfl
      | ok _ =>
        dsimp only
        rw [h.deliverSent, (h.deliver v).finalizeSent]

/-! ### Answers -/

theorem keyHistoryMessages (h : Alike a b) (peer : PeerId) (haveEpochs : OrdSet Nat) (held : List (Nat × RoomKey))
    (chunks : List KeyHistoryChunk) (budget : Nat) :
    b.keyHistoryMessages sending peer haveEpochs held chunks budget =
      a.keyHistoryMessages sending peer haveEpochs held chunks budget := by
  obtain ⟨x, rfl⟩ := h
  have hbuild : (a.under x).buildKeyHistoryChunk sending peer = a.buildKeyHistoryChunk sending peer := rfl
  induction held generalizing chunks budget with
  | nil => rfl
  | cons key held ih =>
    unfold SyncEngine.keyHistoryMessages
    rw [hbuild]
    simp only [ih]

theorem serveWantKeyHistory (h : Alike a b) (peer : PeerId) (haveEpochs : OrdSet Nat) :
    b.serveWantKeyHistory sending peer haveEpochs = a.serveWantKeyHistory sending peer haveEpochs := by
  have hmessages := h.keyHistoryMessages sending peer haveEpochs
  obtain ⟨x, rfl⟩ := h
  exact hmessages _ _ _

theorem collectWanted (h : Alike a b) (ids : List EventId) (got : List Frame × List EventId) :
    b.collectWanted sending.toServing ids got = a.collectWanted sending.toServing ids got := by
  obtain ⟨x, rfl⟩ := h
  induction ids generalizing got with
  | nil => rfl
  | cons id ids ih =>
    unfold SyncEngine.collectWanted
    simp only [ih]

theorem pulled (h : Alike a b) (sender : PeerId) (body : MessageBody) :
    b.pulled sending.toServing sender body = a.pulled sending.toServing sender body := by
  have hwanted := h.collectWanted sending
  obtain ⟨x, rfl⟩ := h
  cases body with
  | wantEvents ids =>
    simp only [SyncEngine.pulled, SyncEngine.serveWantEvents, hwanted]
  | _ => rfl

theorem receipt (h : Alike a b) (sender : PeerId) (body : MessageBody) :
    b.receipt sender body = a.receipt sender body := by
  obtain ⟨x, rfl⟩ := h
  rfl

theorem handleAdminTipOut (h : Alike a b) (claimRotation : Nat) (tip : Option (EventId × Nat)) :
    b.handleAdminTipOut sending claimRotation tip = a.handleAdminTipOut sending claimRotation tip := by
  obtain ⟨x, rfl⟩ := h
  rfl

theorem onConnectOut (h : Alike a b) (claimRotation : Nat) (peer : PeerId) :
    b.onConnectOut sending claimRotation peer = a.onConnectOut sending claimRotation peer := by
  have hretry : ∀ x : Hidden, Alike ({ a with peers := a.peers.add peer } : SyncEngine env sealing room)
      { a.under x with peers := a.peers.add peer } := fun x => ⟨x, rfl⟩
  obtain ⟨x, rfl⟩ := h
  unfold SyncEngine.onConnectOut
  rw [(hretry x).retryRestoredParkOut sending]
  rfl

theorem retriesSent (h : Alike a b) : b.retriesSent sending = a.retriesSent sending := by
  have hrefilled : Alike a.refillTokens b.refillTokens := by
    obtain ⟨x, rfl⟩ := h
    exact ⟨x, rfl⟩
  have hretried := hrefilled.expireSuspectTip.retryStore
  unfold SyncEngine.retriesSent
  dsimp only
  rw [hretried.retryParkSent, hretried.retryPark.retryRestoredParkOut]

theorem hasPendingSyncWork (h : Alike a b) : b.hasPendingSyncWork = a.hasPendingSyncWork := by
  obtain ⟨x, rfl⟩ := h
  rfl

theorem advertised (h : Alike a b) (claimRotation : Nat) (emitPulls : Bool) :
    b.advertised sending claimRotation emitPulls = a.advertised sending claimRotation emitPulls := by
  obtain ⟨x, rfl⟩ := h
  rfl

end Alike

end SyncEngine

end IrohRooms
