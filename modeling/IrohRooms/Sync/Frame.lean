import IrohRooms.Sync.Invariant

/-!
# What a step leaves alone

The key ring is written by the engine and never read by a step, so two engines that differ in their rings only take
the same steps and feed their rings the same events. Next to this, a function of the engine that is not about
the admin tip keeps the suspicion or drops it, only a connection event changes the connected peers, and a node
fails closed only while it is chasing a tip. `Kept` says
all of this of a pair of runs; every function keeps it, one lemma each in the order of the engine.
-/

namespace IrohRooms

variable {env : Env} {sealing : Sealing} {room : RoomId}

namespace SyncEngine

abbrev withRing (e : SyncEngine env sealing room) (ring : KeyRing) : SyncEngine env sealing room :=
  { e with keyRing := ring }

/-- A key history changes the ring alone. -/
theorem adoptKeyHistory_eq (e : SyncEngine env sealing room) (chunks : List KeyHistoryChunk) :
    ∃ ring, chunks.foldl adoptKeyHistoryChunk e = e.withRing ring := by
  induction chunks generalizing e with
  | nil => exact ⟨e.keyRing, rfl⟩
  | cons c chunks ih => exact ih (e.adoptKeyHistoryChunk c)

/-- The call offers no key: it is neither a key history nor a local insertion. -/
def Input.LeavesKeys : Input → Prop
  | .onMessage _ (.keyHistory _) => False
  | .insertRoomKey _ _ => False
  | _ => True

/-- Nobody is denied without a tip being chased. -/
def Guarded (e : SyncEngine env sealing room) : Prop := e.suspectTip = none → e.failClosed = OrdMap.empty

end SyncEngine

/-- A relation of two rings that adopting the same event keeps. -/
structure RingRelation (env : Env) (sealing : Sealing) (room : RoomId) where
  seed : Option SigningKey
  Rel : KeyRing → KeyRing → Prop
  adopt : ∀ {r r' : KeyRing} (id : EventId) (content : Content), Rel r r' →
    Rel (r.adoptKeyFromEvent env sealing room seed id content)
      (r'.adoptKeyFromEvent env sealing room seed id content)

/-- Two runs that differ in their rings only; the first one comes from `start`. -/
structure Kept (Q : RingRelation env sealing room) (start a b : SyncEngine env sealing room) : Prop where
  alike : b = a.withRing b.keyRing
  ring : Q.Rel a.keyRing b.keyRing
  config : a.config = start.config
  peers : a.peers = start.peers
  seed : a.localDeviceSeed = Q.seed
  suspect : a.suspectTip = start.suspectTip ∨ a.suspectTip = none
  guarded : start.Guarded → a.Guarded

namespace Kept

variable {Q : RingRelation env sealing room} {start a b : SyncEngine env sealing room}

theorem refl (hseed : a.localDeviceSeed = Q.seed) {ring : KeyRing} (hring : Q.Rel a.keyRing ring) :
    Kept Q a a (a.withRing ring) :=
  ⟨rfl, hring, rfl, rfl, hseed, Or.inl rfl, id⟩

/-- The second run is the first one with another ring. -/
theorem second (h : Kept Q start a b) : ∃ ring, b = a.withRing ring ∧ Q.Rel a.keyRing ring :=
  ⟨b.keyRing, h.alike, h.ring⟩

/-! ### Persistence -/

theorem recomputeCompleteness (h : Kept Q start a b) :
    Kept Q start a.recomputeCompleteness b.recomputeCompleteness := by
  obtain ⟨ring, rfl, hring⟩ := h.second
  refine ⟨rfl, hring, h.config, h.peers, h.seed, ?_, ?_⟩
  · unfold SyncEngine.recomputeCompleteness
    dsimp only
    split_ifs
    · exact h.suspect
    · exact Or.inr rfl
  · intro _ hnone
    unfold SyncEngine.recomputeCompleteness at hnone ⊢
    dsimp only at hnone ⊢
    split_ifs at hnone ⊢ with hbehind
    · rw [SyncEngine.stillBehind, hnone] at hbehind
      cases hbehind
    · rfl

theorem applyInsertOutcome (h : Kept Q start a b) (outcome : InsertOutcome) (v : ValidatedEvent env room) :
    Kept Q start (a.applyInsertOutcome outcome v) (b.applyInsertOutcome outcome v) := by
  obtain ⟨ring, rfl, hring⟩ := h.second
  unfold SyncEngine.applyInsertOutcome
  cases outcome with
  | inserted =>
    apply recomputeCompleteness
    refine ⟨rfl, ?_, h.config, h.peers, h.seed, h.suspect, h.guarded⟩
    have hadopt := Q.adopt v.eventId v.event.content hring
    rw [← h.seed] at hadopt
    exact hadopt
  | duplicate => exact ⟨rfl, hring, h.config, h.peers, h.seed, h.suspect, h.guarded⟩

theorem enqueueStoreRetry (h : Kept Q start a b) (v : ValidatedEvent env room) :
    Kept Q start (a.enqueueStoreRetry v) (b.enqueueStoreRetry v) := by
  obtain ⟨ring, rfl, hring⟩ := h.second
  unfold SyncEngine.enqueueStoreRetry
  dsimp only [SyncEngine.withRing]
  split_ifs
  all_goals exact ⟨rfl, hring, h.config, h.peers, h.seed, h.suspect, h.guarded⟩

theorem applyLanded (h : Kept Q start a b) (landed : ValidatedEvent env room × InsertOutcome) :
    Kept Q start (a.applyLanded landed) (b.applyLanded landed) := by
  obtain ⟨ring, rfl, hring⟩ := h.second
  apply applyInsertOutcome
  exact ⟨rfl, hring, h.config, h.peers, h.seed, h.suspect, h.guarded⟩

/-- A fold over one list keeps what its step keeps. -/
theorem foldl {α : Type} {f : SyncEngine env sealing room → α → SyncEngine env sealing room}
    (hf : ∀ {a b} x, Kept Q start a b → Kept Q start (f a x) (f b x)) (l : List α) (h : Kept Q start a b) :
    Kept Q start (l.foldl f a) (l.foldl f b) := by
  induction l generalizing a b with
  | nil => exact h
  | cons x l ih => exact ih (hf x h)

theorem flushStoreBatch (h : Kept Q start a b) : Kept Q start a.flushStoreBatch b.flushStoreBatch := by
  obtain ⟨ring, rfl, hring⟩ := h.second
  unfold SyncEngine.flushStoreBatch
  dsimp only [SyncEngine.withRing]
  split_ifs
  · exact h
  · split
    · refine foldl (fun x hx => hx.applyLanded x) _ ?_
      exact ⟨rfl, hring, h.config, h.peers, h.seed, h.suspect, h.guarded⟩
    · refine foldl (fun x hx => hx.enqueueStoreRetry x) _ ?_
      exact ⟨rfl, hring, h.config, h.peers, h.seed, h.suspect, h.guarded⟩

theorem storeAndFanout (h : Kept Q start a b) (v : ValidatedEvent env room) :
    Kept Q start (a.storeAndFanout v) (b.storeAndFanout v) := by
  obtain ⟨ring, rfl, hring⟩ := h.second
  unfold SyncEngine.storeAndFanout
  dsimp only [SyncEngine.withRing]
  split
  · apply applyLanded
    exact ⟨rfl, hring, h.config, h.peers, h.seed, h.suspect, h.guarded⟩
  · apply enqueueStoreRetry
    exact ⟨rfl, hring, h.config, h.peers, h.seed, h.suspect, h.guarded⟩

theorem failRetry (h : Kept Q start a b) (id : EventId) (r : StoreRetry env room) :
    Kept Q start (a.failRetry id r) (b.failRetry id r) := by
  obtain ⟨ring, rfl, hring⟩ := h.second
  unfold SyncEngine.failRetry
  dsimp only [SyncEngine.withRing]
  split_ifs
  all_goals exact ⟨rfl, hring, h.config, h.peers, h.seed, h.suspect, h.guarded⟩

theorem retryStoreLoop (ids : List EventId) (h : Kept Q start a b) :
    Kept Q start (SyncEngine.retryStoreLoop ids a) (SyncEngine.retryStoreLoop ids b) := by
  induction ids generalizing a b with
  | nil => exact h
  | cons id ids ih =>
    obtain ⟨ring, rfl, hring⟩ := h.second
    unfold SyncEngine.retryStoreLoop
    dsimp only [SyncEngine.withRing]
    split
    · exact ih h
    · split
      · apply ih
        apply applyInsertOutcome
        exact ⟨rfl, hring, h.config, h.peers, h.seed, h.suspect, h.guarded⟩
      · apply failRetry
        exact ⟨rfl, hring, h.config, h.peers, h.seed, h.suspect, h.guarded⟩

theorem retryStore (h : Kept Q start a b) : Kept Q start a.retryStore b.retryStore := by
  obtain ⟨ring, rfl, -⟩ := h.second
  exact h.retryStoreLoop a.retryOrder

/-! ### The fold and the park -/

theorem ingestFold (h : Kept Q start a b) (v : ValidatedEvent env room) :
    Kept Q start (a.ingestFold v) (b.ingestFold v) := by
  obtain ⟨ring, rfl, hring⟩ := h.second
  unfold SyncEngine.ingestFold SyncEngine.refreshMembershipProjectionIfNeeded
  dsimp only [SyncEngine.withRing]
  split_ifs
  all_goals exact ⟨rfl, hring, h.config, h.peers, h.seed, h.suspect, h.guarded⟩

theorem evictParked (h : Kept Q start a b) (id : EventId) : Kept Q start (a.evictParked id) (b.evictParked id) := by
  obtain ⟨ring, rfl, hring⟩ := h.second
  exact ⟨rfl, hring, h.config, h.peers, h.seed, h.suspect, h.guarded⟩

theorem enforceTotal (fuel : Nat) (h : Kept Q start a b) :
    Kept Q start (SyncEngine.enforceTotal fuel a) (SyncEngine.enforceTotal fuel b) := by
  induction fuel generalizing a b with
  | zero => exact h
  | succ fuel ih =>
    obtain ⟨ring, rfl, hring⟩ := h.second
    unfold SyncEngine.enforceTotal
    have holdest : (a.withRing ring).oldestParked none = a.oldestParked none := rfl
    rw [holdest]
    dsimp only [SyncEngine.withRing]
    split_ifs
    · split
      · exact ih (h.evictParked _)
      · exact h
    · exact h

theorem enforceAuthor (h : Kept Q start a b) (author : IdentityKey) :
    Kept Q start (a.enforceAuthor author) (b.enforceAuthor author) := by
  obtain ⟨ring, rfl, hring⟩ := h.second
  unfold SyncEngine.enforceAuthor
  have holdest : (a.withRing ring).oldestParked (some author) = a.oldestParked (some author) := rfl
  rw [holdest]
  dsimp only [SyncEngine.withRing]
  split_ifs
  · split
    · exact h.evictParked _
    · exact h
  · exact h

theorem parkFrame (h : Kept Q start a b) (v : ValidatedEvent env room) (depth : Nat) (missing : List EventId) :
    Kept Q start (a.parkFrame v depth missing) (b.parkFrame v depth missing) := by
  have hcapped := (h.enforceTotal (a.park.entries.length + 1)).enforceAuthor v.event.senderId
  obtain ⟨ring, rfl, -⟩ := h.second
  unfold SyncEngine.parkFrame
  have hlen : (a.withRing ring).park = a.park := rfl
  rw [hlen]
  split_ifs
  · exact h
  · dsimp only
    obtain ⟨ring', heq, hring'⟩ := hcapped.second
    rw [heq]
    exact ⟨rfl, hring', hcapped.config, hcapped.peers, hcapped.seed, hcapped.suspect, hcapped.guarded⟩

theorem chase (h : Kept Q start a b) (author : IdentityKey) (depth : Nat) (missing : List EventId) :
    Kept Q start (a.chase author depth missing) (b.chase author depth missing) := by
  obtain ⟨ring, rfl, hring⟩ := h.second
  unfold SyncEngine.chase SyncEngine.takeBackfillToken
  have hworth : (a.withRing ring).worthBackfilling = a.worthBackfilling := rfl
  rw [hworth]
  dsimp only [SyncEngine.withRing]
  split_ifs
  all_goals exact ⟨rfl, hring, h.config, h.peers, h.seed, h.suspect, h.guarded⟩

theorem onBuffered (h : Kept Q start a b) (v : ValidatedEvent env room) (missing : List EventId) :
    Kept Q start (a.onBuffered v missing) (b.onBuffered v missing) := by
  have hparked := h.parkFrame v ((a.backfillDepth.get? v.eventId).getD 0) missing
  obtain ⟨ring, rfl, -⟩ := h.second
  unfold SyncEngine.onBuffered
  have hsigner : (a.withRing ring).signerPlausible v = a.signerPlausible v := rfl
  have hdepth : (a.withRing ring).backfillDepth = a.backfillDepth := rfl
  have hconfig : (a.withRing ring).config = a.config := rfl
  rw [hsigner, hdepth, hconfig]
  dsimp only
  split_ifs
  · exact h
  · exact h
  · obtain ⟨ring', heq, -⟩ := hparked.second
    rw [heq] at hparked ⊢
    have hpark : ∀ e : SyncEngine env sealing room, (e.withRing ring').park = e.park := fun _ => rfl
    rw [hpark]
    split
    · exact hparked
    · exact hparked.chase _ _ _

theorem wakeOne {st st' : SyncEngine env sealing room × Bool} (h : Kept Q start st.1 st'.1) (hflag : st'.2 = st.2)
    (id : EventId) : Kept Q start (SyncEngine.wakeOne st id).1 (SyncEngine.wakeOne st' id).1 ∧
      (SyncEngine.wakeOne st' id).2 = (SyncEngine.wakeOne st id).2 := by
  obtain ⟨a, flag⟩ := st
  obtain ⟨b, flag'⟩ := st'
  obtain rfl : flag' = flag := hflag
  dsimp only at h
  obtain ⟨ring, rfl, -⟩ := h.second
  unfold SyncEngine.wakeOne
  have hpark : (a.withRing ring).park = a.park := rfl
  dsimp only
  rw [hpark]
  cases a.park.get? id with
  | none => exact ⟨h, rfl⟩
  | some p =>
    have hfolded := h.ingestFold p.event
    obtain ⟨ring', heq, -⟩ := hfolded.second
    rw [heq] at hfolded
    dsimp only
    rw [heq]
    have hfold : ∀ e : SyncEngine env sealing room, (e.withRing ring').fold = e.fold := fun _ => rfl
    rw [hfold]
    split
    · exact ⟨(hfolded.evictParked id).storeAndFanout p.event, rfl⟩
    · exact ⟨hfolded.evictParked id, rfl⟩
    · exact ⟨hfolded, rfl⟩

theorem wakePass (ids : List EventId) {st st' : SyncEngine env sealing room × Bool} (h : Kept Q start st.1 st'.1)
    (hflag : st'.2 = st.2) : Kept Q start (ids.foldl SyncEngine.wakeOne st).1 (ids.foldl SyncEngine.wakeOne st').1 ∧
      (ids.foldl SyncEngine.wakeOne st').2 = (ids.foldl SyncEngine.wakeOne st).2 := by
  induction ids generalizing st st' with
  | nil => exact ⟨h, hflag⟩
  | cons id ids ih =>
    obtain ⟨hone, hflag⟩ := wakeOne h hflag id
    exact ih hone hflag

theorem wakeParkLoop (fuel : Nat) (h : Kept Q start a b) :
    Kept Q start (SyncEngine.wakeParkLoop fuel a) (SyncEngine.wakeParkLoop fuel b) := by
  induction fuel generalizing a b with
  | zero => exact h
  | succ fuel ih =>
    have hstart : Kept Q start ((a, false) : SyncEngine env sealing room × Bool).1 (b, false).1 := h
    have hpass := wakePass a.park.keys hstart rfl
    obtain ⟨ring, rfl, -⟩ := h.second
    unfold SyncEngine.wakeParkLoop
    have hpark : (a.withRing ring).park = a.park := rfl
    rw [hpark]
    dsimp only
    rw [hpass.2]
    split_ifs
    · exact ih hpass.1
    · exact hpass.1

theorem wakePark (h : Kept Q start a b) : Kept Q start a.wakePark b.wakePark := by
  obtain ⟨ring, rfl, -⟩ := h.second
  exact h.wakeParkLoop _

theorem retryPark (h : Kept Q start a b) : Kept Q start a.retryPark b.retryPark := by
  have hwoken := h.wakePark
  obtain ⟨ring, heq, -⟩ := hwoken.second
  unfold SyncEngine.retryPark
  dsimp only
  rw [heq] at hwoken ⊢
  exact foldl (fun p hp => hp.chase p.1 p.2.1 p.2.2) _ hwoken

theorem retryRestoredOne (h : Kept Q start a b) (id : EventId) :
    Kept Q start (a.retryRestoredOne id) (b.retryRestoredOne id) := by
  obtain ⟨ring, rfl, hring⟩ := h.second
  unfold SyncEngine.retryRestoredOne
  dsimp only [SyncEngine.withRing]
  split
  · exact ⟨rfl, hring, h.config, h.peers, h.seed, h.suspect, h.guarded⟩
  · apply chase
    exact ⟨rfl, hring, h.config, h.peers, h.seed, h.suspect, h.guarded⟩

theorem retryRestoredPark (h : Kept Q start a b) : Kept Q start a.retryRestoredPark b.retryRestoredPark := by
  obtain ⟨ring, rfl, -⟩ := h.second
  unfold SyncEngine.retryRestoredPark
  dsimp only [SyncEngine.withRing]
  split_ifs
  · exact h
  · exact foldl (fun id hid => hid.retryRestoredOne id) _ h

/-! ### Delivery -/

theorem deliver (h : Kept Q start a b) (v : ValidatedEvent env room) :
    Kept Q start (a.deliver v) (b.deliver v) := by
  have hfolded := h.ingestFold v
  obtain ⟨ring, rfl, -⟩ := h.second
  unfold SyncEngine.deliver
  have hbuffer : (a.withRing ring).wouldBuffer v = a.wouldBuffer v := rfl
  have hsigner : (a.withRing ring).signerPlausible v = a.signerPlausible v := rfl
  rw [hbuffer, hsigner]
  split_ifs
  · exact h
  · obtain ⟨ring', heq, hring'⟩ := hfolded.second
    dsimp only
    rw [heq] at hfolded ⊢
    dsimp only [SyncEngine.withRing]
    split
    · split_ifs
      · apply flushStoreBatch
        exact ⟨rfl, hring', hfolded.config, hfolded.peers, hfolded.seed, hfolded.suspect, hfolded.guarded⟩
      · exact ⟨rfl, hring', hfolded.config, hfolded.peers, hfolded.seed, hfolded.suspect, hfolded.guarded⟩
    · exact hfolded.flushStoreBatch.onBuffered v _
    · apply flushStoreBatch
      exact ⟨rfl, hring', hfolded.config, hfolded.peers, hfolded.seed, hfolded.suspect, hfolded.guarded⟩

theorem deliverFrame (h : Kept Q start a b) (f : Frame) : Kept Q start (a.deliverFrame f) (b.deliverFrame f) := by
  obtain ⟨ring, rfl, -⟩ := h.second
  unfold SyncEngine.deliverFrame
  dsimp only [SyncEngine.withRing]
  split_ifs
  · exact h
  · split
    · exact h.deliver _
    · exact h

theorem finalizeDelivery (h : Kept Q start a b) : Kept Q start a.finalizeDelivery b.finalizeDelivery :=
  h.flushStoreBatch.wakePark.flushStoreBatch

/-! ### Entry points

From here on the suspicion may change, so the pair starts over in the state reached. -/

theorem restart (h : Kept Q start a b) : Kept Q a a b := ⟨h.alike, h.ring, rfl, rfl, h.seed, Or.inl rfl, id⟩

theorem setSuspectTip (h : Kept Q a a b) (tip : Option SuspectTip) :
    Kept Q { a with suspectTip := tip } { a with suspectTip := tip } { b with suspectTip := tip } := by
  obtain ⟨ring, rfl, hring⟩ := h.second
  exact ⟨rfl, hring, rfl, rfl, h.seed, Or.inl rfl, id⟩

theorem armSuspectTip (h : Kept Q a a b) (id : EventId) (seq : Nat) :
    Kept Q (a.armSuspectTip id seq) (a.armSuspectTip id seq) (b.armSuspectTip id seq) := by
  obtain ⟨ring, rfl, -⟩ := h.second
  unfold SyncEngine.armSuspectTip
  dsimp only [SyncEngine.withRing]
  split_ifs
  · exact h.setSuspectTip _
  · exact h

theorem handleAdminTip (h : Kept Q a a b) (tip : Option (EventId × Nat)) :
    Kept Q (a.handleAdminTip tip) (a.handleAdminTip tip) (b.handleAdminTip tip) := by
  obtain ⟨ring, rfl, -⟩ := h.second
  unfold SyncEngine.handleAdminTip
  cases tip with
  | none => exact h.recomputeCompleteness.restart
  | some t =>
    have hahead : (a.withRing ring).isAhead t.1 t.2 = a.isAhead t.1 t.2 := rfl
    dsimp only
    rw [hahead]
    split_ifs
    · exact (h.armSuspectTip t.1 t.2).recomputeCompleteness.restart
    · exact h.recomputeCompleteness.restart

theorem expireSuspectTip (h : Kept Q a a b) :
    Kept Q a.expireSuspectTip a.expireSuspectTip b.expireSuspectTip := by
  obtain ⟨ring, rfl, -⟩ := h.second
  unfold SyncEngine.expireSuspectTip
  dsimp only [SyncEngine.withRing]
  split
  · exact h
  · split_ifs
    · exact (h.setSuspectTip none).recomputeCompleteness.restart
    · exact h.setSuspectTip _

theorem onTick (h : Kept Q a a b) : Kept Q a.onTick a.onTick b.onTick := by
  have hrefilled : Kept Q a.refillTokens a.refillTokens b.refillTokens := by
    obtain ⟨ring, rfl, hring⟩ := h.second
    exact ⟨rfl, hring, rfl, rfl, h.seed, Or.inl rfl, id⟩
  exact hrefilled.expireSuspectTip.retryStore.retryPark.retryRestoredPark.restart

theorem onMessage (h : Kept Q a a b) (msgRoom : RoomId) {msg : SyncMessage}
    (hmsg : ∀ chunks, msg ≠ .keyHistory chunks) :
    Kept Q (a.onMessage msgRoom msg) (a.onMessage msgRoom msg) (b.onMessage msgRoom msg) := by
  unfold SyncEngine.onMessage
  split_ifs
  · exact h
  · cases msg with
    | adminTip tip => exact (h.handleAdminTip tip).finalizeDelivery.restart
    | events frames => exact (foldl (fun f hf => hf.deliverFrame f) frames h).finalizeDelivery.restart
    | terminalEvents frames => exact (foldl (fun f hf => hf.deliverFrame f) frames h).finalizeDelivery.restart
    | keyHistory chunks => exact absurd rfl (hmsg chunks)
    | other => exact h.finalizeDelivery.restart

/-- A call that offers no key by itself keeps the pair. -/
theorem step (h : Kept Q a a b) {input : SyncEngine.Input} (hinput : input.LeavesKeys) :
    Kept Q (a.step input) (a.step input) (b.step input) := by
  cases input with
  | ingestFrame f => exact (h.deliverFrame f).finalizeDelivery.restart
  | publish f =>
    have hdelivered := fun v => ((h.deliver v).finalizeDelivery).restart
    obtain ⟨ring, rfl, -⟩ := h.second
    unfold SyncEngine.step SyncEngine.publish
    dsimp only
    by_cases hlen : f.frameLen + (SyncEngine.eventsEnvelopeAllowance + SyncEngine.eventsPerFrameOverhead) >
        SyncEngine.maxFrameBytes
    · rw [if_pos hlen, if_pos hlen]
      exact h
    · rw [if_neg hlen, if_neg hlen]
      cases validate env ⟨room, none⟩ f.eventId f.event with
      | error reason => exact h
      | ok v =>
        dsimp only
        cases SyncEngine.writerGate a.config v.event.eventType with
        | error err => exact h
        | ok _ => exact hdelivered v
  | onConnect peer =>
    obtain ⟨ring, rfl, hring⟩ := h.second
    have hadded : Kept Q { a with peers := a.peers.add peer } { a with peers := a.peers.add peer }
        { a.withRing ring with peers := a.peers.add peer } := ⟨rfl, hring, rfl, rfl, h.seed, Or.inl rfl, id⟩
    exact hadded.retryRestoredPark.restart
  | onDisconnect peer =>
    obtain ⟨ring, rfl, hring⟩ := h.second
    exact ⟨rfl, hring, rfl, rfl, h.seed, Or.inl rfl, id⟩
  | onMessage msgRoom msg =>
    apply h.onMessage
    intro chunks hmsg
    rw [hmsg] at hinput
    exact hinput
  | onTick => exact h.onTick
  | insertRoomKey epoch key => exact absurd hinput id

theorem steps (h : Kept Q a a b) {inputs : List SyncEngine.Input} (hinputs : ∀ input ∈ inputs, input.LeavesKeys) :
    Kept Q (inputs.foldl SyncEngine.step a) (inputs.foldl SyncEngine.step a) (inputs.foldl SyncEngine.step b) := by
  induction inputs generalizing a b with
  | nil => exact h
  | cons input inputs ih =>
    apply ih (h.step (hinputs input List.mem_cons_self))
    exact fun i hi => hinputs i (List.mem_cons_of_mem _ hi)

end Kept

end IrohRooms
