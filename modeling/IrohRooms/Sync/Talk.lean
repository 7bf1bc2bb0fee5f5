import IrohRooms.Lib.Journal
import IrohRooms.Sync.Invariant
import IrohRooms.Sync.Sends

/-!
# Calls as they are heard

A call sends only where it writes events of the batch, stores a promoted event, or chases the parents of a parked one;
everything between is silent (`Talk`). Every call is a story of such moves, with the messages of `Sends` as its entries,
so what is true of the messages of each move is true of all that is ever sent. What is written is known by the invariant
that holds between calls, and `Scope` says which lists of missing parents a fold may report.
-/

namespace IrohRooms

open Journal

variable {env : Env} {sealing : Sealing} {room : RoomId}

/-- The lists of missing parents that a sound fold reports, and the lists they are stored as. -/
structure Scope (I : EngineInvariant env room) where
  Missing : List EventId → Prop
  buffered : ∀ {m : RoomMembership env room} {id id' missing}, I.FoldOk m → m.outcome id = .buffered id' missing →
    Missing missing
  sorted : ∀ {missing}, Missing missing → Missing (OrdSet.ofList missing).toList
  known : ∀ {v}, I.Sound v → I.Known v

namespace Scope

variable {I : EngineInvariant env room} (S : Scope I)

/-- A parked frame of a known event, filed under its sender. -/
structure Parks (p : Parked env room) : Prop where
  known : I.Known p.event
  author : p.author = p.event.event.senderId
  missing : S.Missing p.missing.toList

/-- A silent move: at most frames of known events are parked. -/
structure Calm (e f : SyncEngine env sealing room) : Prop where
  config : f.config = e.config
  store : f.store = e.store
  peers : f.peers = e.peers
  tokens : f.tokens = e.tokens
  park : ∀ id p, f.park.get? id = some p → e.park.get? id = some p ∨ S.Parks p

/-- What the messages of a call come from. -/
inductive Talk (sending : Sending env room) :
    SyncEngine env sealing room → List Outgoing → SyncEngine env sealing room → Prop
  | calm {e f : SyncEngine env sealing room} : S.Calm e f → Talk sending e [] f
  | flush {e : SyncEngine env sealing room} (origin : Option PeerId) : (∀ v ∈ e.pendingBatch, I.Known v) →
      Talk sending e (e.flushSent sending origin).out e.flushStoreBatch
  | store {e : SyncEngine env sealing room} (origin : Option PeerId) {v : ValidatedEvent env room} : I.Known v →
      Talk sending e (e.storeSent sending origin v).out (e.storeAndFanout v)
  | chase {e : SyncEngine env sealing room} {targets : List PeerId} {id : EventId} {p : Parked env room} (depth : Nat)
      {missing : List EventId} : targets.Sublist e.peers.toList → e.park.get? id = some p →
      S.Missing missing ∨ missing = p.missing.toList →
      Talk sending e (e.chaseOut sending targets p.author missing) (e.chase p.author depth missing)

variable {S} {e f : SyncEngine env sealing room} {sending : Sending env room} {origin : Option PeerId}

/-! ### Silent moves -/

theorem Calm.refl (e : SyncEngine env sealing room) : S.Calm e e := ⟨rfl, rfl, rfl, rfl, fun _ _ h => Or.inl h⟩

theorem Calm.of_park (hconfig : f.config = e.config) (hstore : f.store = e.store) (hpeers : f.peers = e.peers)
    (htokens : f.tokens = e.tokens) (hpark : f.park = e.park) : S.Calm e f := by
  refine ⟨hconfig, hstore, hpeers, htokens, fun id p hp => Or.inl ?_⟩
  rwa [hpark] at hp

theorem Calm.trans {g : SyncEngine env sealing room} (h : S.Calm e f) (h' : S.Calm f g) : S.Calm e g := by
  refine ⟨h'.config.trans h.config, h'.store.trans h.store, h'.peers.trans h.peers, h'.tokens.trans h.tokens, ?_⟩
  intro id p hp
  rcases h'.park id p hp with hold | hnew
  · exact h.park id p hold
  · exact Or.inr hnew

theorem calm_ingestFold (v : ValidatedEvent env room) : S.Calm e (e.ingestFold v) := by
  unfold SyncEngine.ingestFold SyncEngine.refreshMembershipProjectionIfNeeded
  dsimp only
  split_ifs <;> exact .of_park rfl rfl rfl rfl rfl

theorem calm_evictParked (id : EventId) : S.Calm e (e.evictParked id) := by
  refine ⟨rfl, rfl, rfl, rfl, fun id' p hp => Or.inl ?_⟩
  rw [SyncEngine.evictParked, OrdMap.get?_erase] at hp
  split_ifs at hp
  exact hp

theorem calm_enforceTotal (fuel : Nat) (e : SyncEngine env sealing room) :
    S.Calm e (SyncEngine.enforceTotal fuel e) := by
  induction fuel generalizing e with
  | zero => exact .refl e
  | succ fuel ih =>
    unfold SyncEngine.enforceTotal
    split_ifs
    · split
      · exact (calm_evictParked _).trans (ih _)
      · exact .refl e
    · exact .refl e

theorem calm_enforceAuthor (author : IdentityKey) : S.Calm e (e.enforceAuthor author) := by
  unfold SyncEngine.enforceAuthor
  split_ifs
  · split
    · exact calm_evictParked _
    · exact .refl e
  · exact .refl e

theorem calm_parkFrame {v : ValidatedEvent env room} (hv : I.Known v) (depth : Nat) {missing : List EventId}
    (hmissing : S.Missing missing) : S.Calm e (e.parkFrame v depth missing) := by
  have hcapped : S.Calm e ((SyncEngine.enforceTotal (e.park.entries.length + 1) e).enforceAuthor v.event.senderId) :=
    (calm_enforceTotal _ e).trans (calm_enforceAuthor _)
  unfold SyncEngine.parkFrame
  split_ifs
  · exact .refl e
  · refine ⟨hcapped.config, hcapped.store, hcapped.peers, hcapped.tokens, fun id p hp => ?_⟩
    rw [OrdMap.get?_insert] at hp
    split_ifs at hp
    · rw [← Option.some.inj hp]
      exact Or.inr ⟨hv, rfl, S.sorted hmissing⟩
    · exact hcapped.park id p hp

theorem calm_recomputeCompleteness : S.Calm e e.recomputeCompleteness := .of_park rfl rfl rfl rfl rfl

theorem calm_handleAdminTip (tip : Option (EventId × Nat)) : S.Calm e (e.handleAdminTip tip) := by
  unfold SyncEngine.handleAdminTip SyncEngine.armSuspectTip
  cases tip with
  | none => exact calm_recomputeCompleteness
  | some t =>
    dsimp only
    split_ifs <;> exact .of_park rfl rfl rfl rfl rfl

theorem calm_expireSuspectTip : S.Calm e e.expireSuspectTip := by
  unfold SyncEngine.expireSuspectTip
  split
  · exact .refl e
  · split_ifs <;> exact .of_park rfl rfl rfl rfl rfl

theorem calm_adoptKeyHistory (chunks : List KeyHistoryChunk) (e : SyncEngine env sealing room) :
    S.Calm e (chunks.foldl SyncEngine.adoptKeyHistoryChunk e) :=
  List.foldlRecOn chunks SyncEngine.adoptKeyHistoryChunk (motive := fun f : SyncEngine env sealing room => S.Calm e f)
    (.refl e) fun _ h _ _ => h.trans (.of_park rfl rfl rfl rfl rfl)

/-! ### Stories -/

/-- A story of a call's moves. -/
abbrev Tells (S : Scope I) (sending : Sending env room) :
    SyncEngine env sealing room → List Outgoing → SyncEngine env sealing room → Prop := Story (S.Talk sending)

theorem Calm.tells (h : S.Calm e f) : S.Tells sending e [] f := .single (.calm h)

theorem tells_flush (h : I.Holds e) :
    S.Tells sending e (e.flushSent sending origin).out e.flushStoreBatch :=
  .single (.flush origin fun v hv => S.known (h.pending v hv))

theorem tells_onBuffered {v : ValidatedEvent env room} (hv : I.Known v) {missing : List EventId}
    (hmissing : S.Missing missing) :
    S.Tells sending e (e.onBufferedOut sending origin v missing) (e.onBuffered v missing) := by
  unfold SyncEngine.onBufferedOut SyncEngine.onBuffered
  dsimp only
  split_ifs
  · exact .refl e
  · exact .refl e
  · refine .after (.calm (calm_parkFrame hv ((e.backfillDepth.get? v.eventId).getD 0) hmissing)) ?_
    cases hp : (e.parkFrame v ((e.backfillDepth.get? v.eventId).getD 0) missing).park.get? v.eventId with
    | none => exact .refl _
    | some p =>
      refine .single (.chase _ ?_ hp (Or.inl hmissing))
      unfold SyncEngine.backfillTargets
      split
      · split_ifs with hconnected
        · exact List.singleton_sublist.mpr (OrdSet.mem_toList.mpr hconnected)
        · exact List.Sublist.refl _
      · exact List.Sublist.refl _

theorem tells_wakeOne {st : SyncEngine env sealing room × Bool} (h : I.Holds st.1) (id : EventId) :
    S.Tells sending st.1 (SyncEngine.wakeOneSent sending st id).out (SyncEngine.wakeOne st id).1 := by
  unfold SyncEngine.wakeOneSent SyncEngine.wakeOne
  cases hp : st.1.park.get? id with
  | none => exact .refl _
  | some p =>
    have hknown := h.park hp
    have hfold : S.Calm st.1 (st.1.ingestFold p.event) := calm_ingestFold p.event
    dsimp only
    cases (st.1.ingestFold p.event).fold.outcome p.event.eventId with
    | accepted =>
      exact .after (.calm (hfold.trans (calm_evictParked id))) (.single (.store none hknown))
    | rejected => exact (hfold.trans (calm_evictParked id)).tells
    | buffered => exact hfold.tells

theorem tells_wakePass (ids : List EventId) {st : SyncEngine env sealing room × Bool} (h : I.Holds st.1) :
    S.Tells sending st.1 (SyncEngine.wakePassSent sending ids st).out (ids.foldl SyncEngine.wakeOne st).1 := by
  induction ids generalizing st with
  | nil => exact .refl _
  | cons id ids ih => exact (tells_wakeOne h id).trans (ih (h.wakeOne id))

theorem tells_wakeParkLoop (fuel : Nat) {e : SyncEngine env sealing room} (h : I.Holds e) :
    S.Tells sending e (SyncEngine.wakeParkLoopSent sending fuel e).out (SyncEngine.wakeParkLoop fuel e) := by
  induction fuel generalizing e with
  | zero => exact .refl e
  | succ fuel ih =>
    have hpass : I.Holds (e.park.keys.foldl SyncEngine.wakeOne (e, false)).1 :=
      List.foldlRecOn (motive := fun st : SyncEngine env sealing room × Bool => I.Holds st.1) _ _ h
        fun _ hst id _ => hst.wakeOne id
    unfold SyncEngine.wakeParkLoopSent SyncEngine.wakeParkLoop
    dsimp only
    have hwoken : I.Holds ((e, false) : SyncEngine env sealing room × Bool).1 := h
    refine (tells_wakePass e.park.keys hwoken).trans ?_
    split_ifs
    · exact ih hpass
    · exact .refl _

theorem tells_wakePark (h : I.Holds e) : S.Tells sending e (e.wakeParkSent sending).out e.wakePark :=
  tells_wakeParkLoop _ h

theorem chase_park (author : IdentityKey) (depth : Nat) (missing : List EventId) :
    (e.chase author depth missing).park = e.park := by
  unfold SyncEngine.chase SyncEngine.takeBackfillToken
  dsimp only
  split_ifs <;> rfl

/-- The parked frames of the list stay parked while they are chased. -/
theorem tells_chases (frames : List (Parked env room)) {e : SyncEngine env sealing room}
    (hparked : ∀ p ∈ frames, ∃ id, e.park.get? id = some p) :
    S.Tells sending e (SyncEngine.chasesOut sending (frames.map fun p => (p.author, p.depth, p.missing.toList)) e)
      ((frames.map fun p => (p.author, p.depth, p.missing.toList)).foldl (fun e p => e.chase p.1 p.2.1 p.2.2) e) := by
  induction frames generalizing e with
  | nil => exact .refl e
  | cons p frames ih =>
    obtain ⟨id, hp⟩ := hparked p List.mem_cons_self
    refine (Story.single (.chase p.depth (List.Sublist.refl _) hp (Or.inr rfl))).trans
      (ih fun q hq => ?_)
    rw [chase_park]
    exact hparked q (List.mem_cons_of_mem _ hq)

theorem tells_retryPark (h : I.Holds e) : S.Tells sending e (e.retryParkSent sending).out e.retryPark := by
  refine (tells_wakePark h).trans (tells_chases e.wakePark.park.values fun p hp => ?_)
  exact OrdMap.mem_values.mp hp

theorem tells_retryRestoredOne (e : SyncEngine env sealing room) (id : EventId) :
    S.Tells sending e (e.retryRestoredOneOut sending id) (e.retryRestoredOne id) := by
  unfold SyncEngine.retryRestoredOneOut SyncEngine.retryRestoredOne
  dsimp only
  have hclear : S.Calm e ({ e with restoredBackfill := OrdMap.erase e.restoredBackfill id } :
      SyncEngine env sealing room) := .of_park rfl rfl rfl rfl rfl
  refine .after (.calm hclear) ?_
  cases hp : e.park.get? id with
  | none => exact .refl _
  | some p =>
    exact .single (.chase p.depth (List.Sublist.refl _) hp (Or.inr rfl))

theorem tells_retryRestoredLoop (ids : List EventId) (e : SyncEngine env sealing room) :
    S.Tells sending e (SyncEngine.retryRestoredLoopOut sending ids e) (ids.foldl SyncEngine.retryRestoredOne e) := by
  induction ids generalizing e with
  | nil => exact .refl e
  | cons id ids ih => exact (tells_retryRestoredOne e id).trans (ih _)

theorem tells_retryRestoredPark (e : SyncEngine env sealing room) :
    S.Tells sending e (e.retryRestoredParkOut sending) e.retryRestoredPark := by
  unfold SyncEngine.retryRestoredParkOut SyncEngine.retryRestoredPark
  split_ifs
  · exact .refl e
  · exact tells_retryRestoredLoop _ e

/-! ### Deliveries -/

theorem tells_deliver (h : I.Holds e) {v : ValidatedEvent env room} (hv : I.Known v) :
    S.Tells sending e (e.deliverSent sending origin v).out (e.deliver v) := by
  unfold SyncEngine.deliverSent SyncEngine.deliver
  by_cases hdoubts : (e.wouldBuffer v && !e.signerPlausible v) = true
  · rw [if_pos hdoubts, if_pos hdoubts]
    exact .refl e
  · rw [if_neg hdoubts, if_neg hdoubts]
    have hfolded := h.ingestFold hv
    have hfold : S.Calm e (e.ingestFold v) := calm_ingestFold v
    dsimp only
    cases hout : (e.ingestFold v).fold.outcome v.eventId with
    | accepted id flags =>
      have hqueued : I.Holds ({ e.ingestFold v with
          backfillDepth := (e.ingestFold v).backfillDepth.erase v.eventId
          pendingBatch := (e.ingestFold v).pendingBatch ++ [v] } : SyncEngine env sealing room) := by
        refine ⟨hfolded.fold, hfolded.store, hfolded.projection, hfolded.park, hfolded.retry, ?_⟩
        intro w hw
        rcases List.mem_append.mp hw with hw | hw
        · exact hfolded.pending w hw
        · rw [List.mem_singleton.mp hw]
          exact h.sound_of_accepted hv hout
      have hqueue : S.Calm e ({ e.ingestFold v with
          backfillDepth := (e.ingestFold v).backfillDepth.erase v.eventId
          pendingBatch := (e.ingestFold v).pendingBatch ++ [v] } : SyncEngine env sealing room) :=
        hfold.trans (.of_park rfl rfl rfl rfl rfl)
      dsimp only at hqueue hqueued ⊢
      split_ifs
      · exact .after (.calm hqueue) (tells_flush hqueued)
      · exact hqueue.tells
    | buffered id missing =>
      have hmissing := S.buffered hfolded.fold hout
      exact .after (.calm hfold) ((tells_flush hfolded).trans (tells_onBuffered hv hmissing))
    | rejected id reason =>
      have hdrop : S.Calm e ({ e.ingestFold v with
          backfillDepth := (e.ingestFold v).backfillDepth.erase v.eventId } : SyncEngine env sealing room) :=
        hfold.trans (.of_park rfl rfl rfl rfl rfl)
      refine .after (.calm hdrop) (tells_flush ?_)
      exact hfolded

theorem tells_deliverFrame (h : I.Holds e) {frame : Frame} (hframe : I.KnownFrame frame) :
    S.Tells sending e (e.deliverFrameSent sending origin frame).out (e.deliverFrame frame) := by
  unfold SyncEngine.deliverFrameSent SyncEngine.deliverFrame
  split_ifs
  · exact .refl e
  · cases hv : validate env ⟨room, none⟩ frame.eventId frame.event with
    | ok v =>
      obtain ⟨hid, hevent⟩ := validate_ok hv
      exact tells_deliver h (hframe v hid hevent)
    | error reason => exact .refl e

theorem tells_deliverFrames (origin : Option PeerId) (frames : List Frame) {e : SyncEngine env sealing room}
    (h : I.Holds e) (hframes : ∀ frame ∈ frames, I.KnownFrame frame) :
    S.Tells sending e (SyncEngine.deliverFramesSent sending origin frames e).out
      (frames.foldl SyncEngine.deliverFrame e) := by
  induction frames generalizing e with
  | nil => exact .refl e
  | cons frame frames ih =>
    have hframe := hframes frame List.mem_cons_self
    exact (tells_deliverFrame h hframe).trans
      (ih (h.deliverFrame hframe) fun f hf => hframes f (List.mem_cons_of_mem _ hf))

theorem tells_finalize (origin : Option PeerId) (h : I.Holds e) :
    S.Tells sending e (e.finalizeSent sending origin).out e.finalizeDelivery :=
  ((tells_flush h).trans (tells_wakePark h.flushStoreBatch)).trans (tells_flush h.flushStoreBatch.wakePark)

theorem tells_publish (h : I.Holds e) {frame : Frame} (hframe : I.KnownFrame frame) :
    S.Tells sending e (e.publishSent sending frame).out (e.step (.publish frame)) := by
  unfold SyncEngine.publishSent SyncEngine.step
  dsimp only
  cases hpublish : e.publish frame with
  | error err => exact .refl e
  | ok e' =>
    obtain ⟨v, hv, rfl⟩ := SyncEngine.publish_ok hpublish
    obtain ⟨hid, hevent⟩ := validate_ok hv
    rw [hv]
    have hknown := hframe v hid hevent
    exact (tells_deliver h hknown).trans (tells_finalize none (h.deliver hknown))

theorem tells_ingestFrame (h : I.Holds e) {frame : Frame} (hframe : I.KnownFrame frame) (sender : PeerId) :
    S.Tells sending e (e.ingestFrameSent sending sender frame).out (e.ingestFrame frame) :=
  (tells_deliverFrame h hframe).trans (tells_finalize (some sender) (h.deliverFrame hframe))

/-- The part of a tick that retries, once the tokens are refilled and the due writes repeated. -/
theorem tells_retries (h : I.Holds e) :
    S.Tells sending e.refillTokens.expireSuspectTip.retryStore (e.retriesSent sending).out e.onTick := by
  have hrefilled : I.Holds e.refillTokens := h
  unfold SyncEngine.retriesSent SyncEngine.onTick
  dsimp only [Sent.append_out]
  exact (tells_retryPark hrefilled.expireSuspectTip.retryStore).trans (tells_retryRestoredPark _)

end Scope

end IrohRooms
