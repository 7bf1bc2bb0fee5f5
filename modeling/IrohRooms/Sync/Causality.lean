import IrohRooms.Sync.Recovery
import IrohRooms.Sync.Rest
import IrohRooms.Sync.Tidy

/-!
# The order of announcements

A peer that is sent an event can use it once it has its parents, so an event should be written and announced after
every parent the fold has accepted. A batch keeps that order, since an event is accepted after its parents. The park
does not: one arrival may release a whole chain, and the chain is then written in the order of its ids. `Deed.Fits` is
what a write or an announcement asks of the journal before it, and it is met in every run in which no event is accepted
while a parent of it is `stranded`, accepted but neither stored nor about to be (`announced_in_order`).
-/

namespace IrohRooms

open Journal

variable {env : Env} {sealing : Sealing} {room : RoomId}

/-- The deed stands where it may. A row is added after the rows of the known parents; an event is reported and pushed
when its known parents, those apart that were stored from the start, were written and reported. -/
def Deed.Fits (loaded : EventId → Bool) (o : Outbox) : Deed env room → Prop
  | .wrote _ .inserted known => ∀ p ∈ known, loaded p = true ∨ p ∈ o.written
  | .reported _ known | .fannedOut _ _ known => ∀ p ∈ known, loaded p = true ∨ (p ∈ o.written ∧ p ∈ o.reported)
  | _ => True

instance (loaded : EventId → Bool) (o : Outbox) : ∀ d : Deed env room, Decidable (d.Fits loaded o)
  | .wrote _ .inserted known => inferInstanceAs (Decidable (∀ p ∈ known, loaded p = true ∨ p ∈ o.written))
  | .reported _ known | .fannedOut _ _ known =>
    inferInstanceAs (Decidable (∀ p ∈ known, loaded p = true ∨ (p ∈ o.written ∧ p ∈ o.reported)))
  | .wrote _ .duplicate _ | .ticked | .reopened | .buckets _ | .savedTokens | .granted _ | .parked _ _ | .savedParked _
  | .unparked _ | .deletedParked _ | .failed _ | .queued _ _ | .dequeued _ | .degraded _ => .isTrue trivial

theorem Deed.fits_of_not_aboutEvents {loaded : EventId → Bool} {o : Outbox} {d : Deed env room}
    (h : d.aboutEvents = false) : d.Fits loaded o := by
  cases d <;> trivial

namespace SyncEngine

/-! ### The condition -/

section Condition

variable (e : SyncEngine env sealing room)

/-- Accepted, and neither stored nor in the batch: it waits in the park, or was dropped from it. -/
def stranded (id : EventId) : Bool :=
  e.fold.isAccepted id && !e.store.contains id && !e.pendingBatch.any fun w => w.eventId == id

/-- An accepted event that is new leaves no parent behind. -/
def anchored (v : ValidatedEvent env room) : Bool :=
  e.store.contains v.eventId || (e.pendingBatch.any fun w => w.eventId == v.eventId) ||
    v.event.prevEvents.all fun p => !e.stranded p

/-- If the fold accepts the event, no parent is left behind. -/
def anchoredEntry (v : ValidatedEvent env room) : Bool :=
  match (e.ingestFold v).fold.outcome v.eventId with
  | .accepted .. => (e.ingestFold v).anchored v
  | _ => true

def anchoredDelivery (v : ValidatedEvent env room) : Bool :=
  (e.wouldBuffer v && !e.signerPlausible v) || e.anchoredEntry v

def anchoredFrame (f : Frame) : Bool :=
  e.dedupCache.contains f.eventId ||
    match validate env ⟨room, none⟩ f.eventId f.event with
    | .ok v => e.anchoredDelivery v
    | .error _ => true

def anchoredFrames : List Frame → SyncEngine env sealing room → Bool
  | [], _ => true
  | f :: fs, e => e.anchoredFrame f && anchoredFrames fs (e.deliverFrame f)

/-- The frame a pass over the park looks at. -/
def anchoredWake (st : SyncEngine env sealing room × Bool) (id : EventId) : Bool :=
  match st.1.park.get? id with
  | none => true
  | some p => st.1.anchoredEntry p.event

def anchoredPass : List EventId → SyncEngine env sealing room × Bool → Bool
  | [], _ => true
  | id :: ids, st => anchoredWake st id && anchoredPass ids (wakeOne st id)

def anchoredLoop : Nat → SyncEngine env sealing room → Bool
  | 0, _ => true
  | fuel + 1, e =>
    anchoredPass e.park.keys (e, false) &&
      if (e.park.keys.foldl wakeOne (e, false)).2 then anchoredLoop fuel (e.park.keys.foldl wakeOne (e, false)).1
      else true

def anchoredPark : Bool := anchoredLoop (e.park.entries.length + 1) e

/-- The frames a call delivers, and then those it releases from the park. -/
def anchoredCall : Call → Bool
  | .ingestFrame _ f => e.anchoredFrame f && (e.deliverFrame f).flushStoreBatch.anchoredPark
  | .publish f =>
    match e.publish f, validate env ⟨room, none⟩ f.eventId f.event with
    | .ok _, .ok v => e.anchoredDelivery v && (e.deliver v).flushStoreBatch.anchoredPark
    | _, _ => true
  | .onMessage _ msg => decide (msg.roomId ≠ room) || (anchoredFrames msg.body.toSync.frames e &&
      (e.dispatched msg.body.toSync).flushStoreBatch.anchoredPark)
  | .onTick => e.refillTokens.expireSuspectTip.retryStore.anchoredPark
  | _ => true

def anchoredRun : List Call → SyncEngine env sealing room → Bool
  | [], _ => true
  | c :: calls, e => e.anchoredCall c && anchoredRun calls (e.step c.input)

end Condition

/-! ### Batches -/

/-- Written one after the other, each event is a row already or follows its known parents. -/
def Ordered (known : ValidatedEvent env room → List EventId) :
    (EventId → Prop) → List (ValidatedEvent env room) → Prop
  | _, [] => True
  | has, v :: vs => (has v.eventId ∨ ∀ p ∈ known v, has p) ∧ Ordered known (fun id => has id ∨ id = v.eventId) vs

namespace Ordered

variable {known known' : ValidatedEvent env room → List EventId} {has has' : EventId → Prop}
  {vs : List (ValidatedEvent env room)}

theorem congr (h : Ordered known has vs) (hknown : ∀ v ∈ vs, known' v = known v) (hhas : ∀ id, has id → has' id) :
    Ordered known' has' vs := by
  induction vs generalizing has has' with
  | nil => trivial
  | cons v vs ih =>
    obtain ⟨hv, hvs⟩ := h
    refine ⟨hv.imp (hhas _) fun hp p hmem => ?_, ih hvs (fun w hw => hknown w (List.mem_cons_of_mem _ hw)) ?_⟩
    · rw [hknown v List.mem_cons_self] at hmem
      exact hhas p (hp p hmem)
    · exact fun id hid => hid.imp_left (hhas id)

theorem snoc (h : Ordered known has vs) {v : ValidatedEvent env room} {held : EventId → Prop}
    (hheld : ∀ id, held id → has id ∨ ∃ w ∈ vs, w.eventId = id) (hv : held v.eventId ∨ ∀ p ∈ known v, held p) :
    Ordered known has (vs ++ [v]) := by
  induction vs generalizing has with
  | nil =>
    have hnow : ∀ id, held id → has id := fun id hid =>
      (hheld id hid).resolve_right fun ⟨w, hw, _⟩ => absurd hw List.not_mem_nil
    exact ⟨hv.imp (hnow _) fun hp p hmem => hnow p (hp p hmem), trivial⟩
  | cons w vs ih =>
    refine ⟨h.1, ih h.2 fun id hid => ?_⟩
    rcases hheld id hid with hid | ⟨x, hx, rfl⟩
    · exact Or.inl (Or.inl hid)
    · rcases List.mem_cons.mp hx with rfl | hx
      · exact Or.inl (Or.inr rfl)
      · exact Or.inr ⟨x, hx, rfl⟩

end Ordered

/-! ### A commit -/

variable {loaded : EventId → Bool} {o : Outbox} {e f : SyncEngine env sealing room} {es : List (Deed env room)}

/-- Deeds that are about no event. -/
theorem passes_other {P : Outbox → SyncEngine env sealing room → Prop} (h : P o f)
    (hes : ∀ d ∈ es, d.aboutEvents = false) : Passes Outbox.enter (Deed.Fits loaded) P o es f := by
  induction es with
  | nil => exact .nil h
  | cons d es ih =>
    refine .cons (Deed.fits_of_not_aboutEvents (hes d List.mem_cons_self)) ?_
    rw [Outbox.enter_of_not_aboutEvents (hes d List.mem_cons_self)]
    exact ih fun d' hd' => hes d' (List.mem_cons_of_mem _ hd')

/-- Stored, and reported unless it was there from the start. -/
def Announced (loaded : EventId → Bool) (o : Outbox) (id : EventId) : Prop :=
  loaded id = true ∨ (id ∈ o.written ∧ id ∈ o.reported)

/-- The writes of a transaction come in order. -/
theorem passes_wrote {P : Outbox → SyncEngine env sealing room → Prop} (g : SyncEngine env sealing room)
    (vs : List (ValidatedEvent env room)) (s : EventStore env room)
    (hstored : ∀ id, s.contains id = true → loaded id = true ∨ id ∈ o.written)
    (hordered : Ordered g.knownParents (fun id => s.contains id = true) vs)
    (hend : P { o with written := o.written ++ insertedIds (vs.zip (EventStore.insertAllInTx s vs).2) } f) :
    Passes Outbox.enter (Deed.Fits loaded) P o ((vs.zip (EventStore.insertAllInTx s vs).2).map g.wroteDeed) f := by
  induction vs generalizing s o with
  | nil =>
    rw [List.zip_nil_left, insertedIds, List.filterMap_nil, List.append_nil] at hend
    exact .nil hend
  | cons v vs ih =>
    obtain ⟨hv, hvs⟩ := hordered
    have hnext : Ordered g.knownParents (fun id => (s.insertInTx v).1.contains id = true) vs :=
      hvs.congr (fun _ _ => rfl) fun id => (EventStore.insertInTx_contains s v id).mpr
    have hzip : (v :: vs).zip (EventStore.insertAllInTx s (v :: vs)).2 =
      (v, (s.insertInTx v).2) :: vs.zip (EventStore.insertAllInTx (s.insertInTx v).1 vs).2 := rfl
    rw [hzip] at hend ⊢
    by_cases hold : s.contains v.eventId = true
    · rw [EventStore.insertInTx_duplicate hold] at hend hnext ⊢
      exact .cons trivial (ih s hstored hnext hend)
    · rw [EventStore.insertInTx_inserted hold] at hend ⊢
      refine .cons (fun p hp => hstored p ((hv.resolve_left hold) p hp)) (ih (s.insertInTx v).1 ?_ hnext ?_)
      · intro id hid
        rcases (EventStore.insertInTx_contains s v id).mp hid with hid | rfl
        · exact (hstored id hid).imp_right fun hmem => List.mem_append_left _ hmem
        · exact Or.inr (List.mem_append_right _ List.mem_cons_self)
      · rw [Tracks.insertedIds_cons, ← List.append_assoc] at hend
        exact hend

theorem passes_fanout {P : Outbox → SyncEngine env sealing room → Prop} {v : ValidatedEvent env room}
    {known : List EventId} (peers : List PeerId) (hknown : ∀ p ∈ known, Announced loaded o p)
    (hend : ∀ o' : Outbox, o'.written = o.written → o'.reported = o.reported → P o' f) :
    Passes Outbox.enter (Deed.Fits loaded) P o (peers.map fun peer => .fannedOut v peer known) f := by
  induction peers generalizing o with
  | nil => exact .nil (hend o rfl rfl)
  | cons peer peers ih => exact .cons hknown (ih hknown hend)

/-- And so do the announcements: by the time of each, those before it were made. -/
theorem passes_landing (origin : Option PeerId) (vs : List (ValidatedEvent env room)) (s : EventStore env room)
    (hstored : ∀ id, s.contains id = true → Announced loaded o id)
    (hwritten : ∀ id ∈ insertedIds (vs.zip (EventStore.insertAllInTx s vs).2), id ∈ o.written)
    (hordered : Ordered e.knownParents (fun id => s.contains id = true) vs) :
    Passes Outbox.enter (Deed.Fits loaded)
      (fun o _ => ∀ id, (EventStore.insertAllInTx s vs).1.contains id = true → Announced loaded o id) o
      (told (landedDeeds origin) applyLanded (vs.zip (EventStore.insertAllInTx s vs).2) e) f := by
  induction vs generalizing s o e with
  | nil => exact .nil hstored
  | cons v vs ih =>
    obtain ⟨hv, hvs⟩ := hordered
    have hfold : ∀ outcome, (e.applyLanded (v, outcome)).fold = e.fold := fun outcome => by cases outcome <;> rfl
    have hnext : Ordered (e.applyLanded (v, (s.insertInTx v).2)).knownParents
        (fun id => (s.insertInTx v).1.contains id = true) vs := by
      refine hvs.congr (fun w _ => ?_) fun id => (EventStore.insertInTx_contains s v id).mpr
      rw [knownParents, knownParents, hfold]
    have hzip : (v :: vs).zip (EventStore.insertAllInTx s (v :: vs)).2 =
      (v, (s.insertInTx v).2) :: vs.zip (EventStore.insertAllInTx (s.insertInTx v).1 vs).2 := rfl
    have hlast : (EventStore.insertAllInTx s (v :: vs)).1 = (EventStore.insertAllInTx (s.insertInTx v).1 vs).1 := rfl
    rw [hlast, hzip]
    rw [hzip] at hwritten
    refine .cons trivial ?_
    by_cases hold : s.contains v.eventId = true
    · rw [EventStore.insertInTx_duplicate hold] at hwritten hnext ⊢
      exact ih (o := o.enter (.dequeued v.eventId : Deed env room)) s hstored hwritten hnext
    · have hknown : ∀ p ∈ e.knownParents v, Announced loaded o p :=
        fun p hp => hstored p ((hv.resolve_left hold) p hp)
      rw [EventStore.insertInTx_inserted hold] at hwritten hnext ⊢
      rw [Tracks.insertedIds_cons] at hwritten
      -- the event is reported, then pushed, and then it counts as announced
      have hpushed : Passes Outbox.enter (Deed.Fits loaded)
          (fun o' _ => o'.written = o.written ∧ o'.reported = o.reported ++ [v.eventId])
          ((o.enter (.dequeued v.eventId : Deed env room)).enter (.reported v (e.knownParents v)))
          ((e.peers.toList.filter fun peer => some peer != origin).map fun peer =>
            .fannedOut v peer (e.knownParents v)) f := by
        refine passes_fanout _ (fun p hp => ?_) fun o' hw hr => ⟨hw, hr⟩
        exact (hknown p hp).imp_right fun hmem => ⟨hmem.1, List.mem_append_left _ hmem.2⟩
      refine .cons hknown (hpushed.append fun o' ho' => ?_)
      obtain ⟨hw, hr⟩ := ho'
      refine ih (s.insertInTx v).1 (fun id hid => ?_) (fun id hid => ?_) hnext
      · rw [Announced, hw, hr]
        rcases (EventStore.insertInTx_contains s v id).mp hid with hid | rfl
        · exact (hstored id hid).imp_right fun hmem => ⟨hmem.1, List.mem_append_left _ hmem.2⟩
        · exact Or.inr ⟨hwritten v.eventId List.mem_cons_self, List.mem_append_right _ List.mem_cons_self⟩
      · rw [hw]
        exact hwritten id (List.mem_cons_of_mem _ hid)

/-- A transaction, and the announcements of what it added. -/
theorem passes_commit (g : SyncEngine env sealing room) (hfold : g.fold = e.fold) (origin : Option PeerId)
    (vs : List (ValidatedEvent env room)) (s : EventStore env room)
    (hstored : ∀ id, s.contains id = true → Announced loaded o id)
    (hordered : Ordered e.knownParents (fun id => s.contains id = true) vs) :
    Passes Outbox.enter (Deed.Fits loaded)
      (fun o _ => ∀ id, (EventStore.insertAllInTx s vs).1.contains id = true → Announced loaded o id) o
      ((vs.zip (EventStore.insertAllInTx s vs).2).map e.wroteDeed ++
        told (landedDeeds origin) applyLanded (vs.zip (EventStore.insertAllInTx s vs).2) g) f := by
  have hrows : Passes Outbox.enter (Deed.Fits loaded)
      (fun o' _ => o' = { o with written := o.written ++ insertedIds (vs.zip (EventStore.insertAllInTx s vs).2) }) o
      ((vs.zip (EventStore.insertAllInTx s vs).2).map e.wroteDeed) f :=
    passes_wrote e vs s (fun id hid => (hstored id hid).imp_right And.left) hordered rfl
  refine hrows.append fun o' ho' => ?_
  rw [ho']
  refine passes_landing origin vs s (fun id hid => ?_) (fun id hid => List.mem_append_right _ hid) ?_
  · exact (hstored id hid).imp_right fun hmem => ⟨List.mem_append_left _ hmem.1, hmem.2⟩
  · refine hordered.congr (fun w _ => ?_) fun _ hid => hid
    rw [knownParents, knownParents, hfold]

/-! ### The invariant -/

/-- What is stored was announced, and the batch is in order. -/
structure InStep (loaded : EventId → Bool) (o : Outbox) (e : SyncEngine env sealing room) : Prop where
  settled : e.fold.Settled
  writes : e.store.NeverFails
  retry : e.storeRetry = .empty
  stored : ∀ id, e.store.contains id = true → Announced loaded o id
  pending : ∀ v ∈ e.pendingBatch, e.fold.isAccepted v.eventId = true ∧ e.fold.event? v.eventId = some v.event
  ordered : Ordered e.knownParents (fun id => e.store.contains id = true) e.pendingBatch

/-- And nothing is pending. -/
structure Drained (loaded : EventId → Bool) (o : Outbox) (e : SyncEngine env sealing room) : Prop
    extends InStep loaded o e where
  idle : e.pendingBatch = []

namespace InStep

theorem untouched (h : InStep loaded o e) (hu : Untouched e f) : InStep loaded o f := by
  have hknown : f.knownParents = e.knownParents := by
    unfold knownParents
    rw [hu.fold]
  refine ⟨?_, ?_, hu.retry.trans h.retry, ?_, ?_, ?_⟩
  · rw [hu.fold]
    exact h.settled
  · rw [hu.store]
    exact h.writes
  · rw [hu.store]
    exact h.stored
  · rw [hu.pendingBatch, hu.fold]
    exact h.pending
  · rw [hu.pendingBatch, hu.store, hknown]
    exact h.ordered

/-- The parents of an accepted event are classified for good. -/
theorem knownParents_ingestFold (hsettled : e.fold.Settled) {w : ValidatedEvent env room}
    (haccepted : e.fold.isAccepted w.eventId = true) (hevent : e.fold.event? w.eventId = some w.event)
    (v : ValidatedEvent env room) : (e.ingestFold v).knownParents w = e.knownParents w := by
  unfold knownParents
  rw [ingestFold_fold]
  refine List.filter_congr fun p hp => ?_
  have hclassified : e.fold.result p ≠ none :=
    hsettled.wf.parents (RoomMembership.result_ne_none_of_accepted haccepted) hevent p hp
  rw [Bool.eq_iff_iff, RoomMembership.isAccepted_iff, RoomMembership.isAccepted_iff,
    hsettled.ingest_result v hclassified]

theorem ingestFold (h : InStep loaded o e) (v : ValidatedEvent env room) : InStep loaded o (e.ingestFold v) := by
  have hbatch : (e.ingestFold v).pendingBatch = e.pendingBatch := by rw [ingestFold_eq]
  have hstore : (e.ingestFold v).store = e.store := by rw [ingestFold_eq]
  have hretry : (e.ingestFold v).storeRetry = e.storeRetry := by rw [ingestFold_eq]
  refine ⟨?_, ?_, hretry.trans h.retry, ?_, ?_, ?_⟩
  · rw [ingestFold_fold]
    exact h.settled.ingest v
  · rw [hstore]
    exact h.writes
  · rw [hstore]
    exact h.stored
  · intro w hw
    rw [hbatch] at hw
    obtain ⟨haccepted, hevent⟩ := h.pending w hw
    rw [ingestFold_fold, (ingest_keeps h.settled v haccepted).1]
    exact ⟨h.settled.ingest_isAccepted v haccepted, hevent⟩
  · rw [hbatch, hstore]
    refine h.ordered.congr (fun w hw => ?_) fun _ hid => hid
    obtain ⟨haccepted, hevent⟩ := h.pending w hw
    exact knownParents_ingestFold h.settled haccepted hevent v

/-- Events that landed in order were announced. -/
theorem lands (h : InStep loaded o e) {o' : Outbox} {vs : List (ValidatedEvent env room)} (hl : Lands vs e f)
    (hidle : f.pendingBatch = [])
    (hlanded : ∀ id, e.store.contains id = true ∨ (∃ v ∈ vs, v.eventId = id) → Announced loaded o' id) :
    InStep loaded o' f := by
  refine ⟨?_, hl.writes, hl.retry, fun id hid => hlanded id ((hl.contains id).mp hid), ?_, ?_⟩
  · rw [hl.fold]
    exact h.settled
  · rw [hidle]
    exact fun v hv => absurd hv List.not_mem_nil
  · rw [hidle]
    trivial

/-- Events in order are committed and announced in order. -/
theorem commit (h : InStep loaded o e) {vs : List (ValidatedEvent env room)}
    (hordered : Ordered e.knownParents (fun id => e.store.contains id = true) vs) (hl : Lands vs e f)
    (hidle : f.pendingBatch = []) (origin : Option PeerId) (g : SyncEngine env sealing room) (hfold : g.fold = e.fold) :
    Passes Outbox.enter (Deed.Fits loaded) (Drained loaded) o
      ((vs.zip (EventStore.insertAllInTx e.store.beginWrite.1 vs).2).map e.wroteDeed ++
        told (landedDeeds origin) applyLanded (vs.zip (EventStore.insertAllInTx e.store.beginWrite.1 vs).2) g) f := by
  have hcontains : ∀ id, e.store.beginWrite.1.contains id = e.store.contains id :=
    EventStore.beginWrite_contains e.store
  refine (passes_commit (f := f) g hfold origin vs e.store.beginWrite.1 ?_ ?_).mono fun o' hannounced => ?_
  · intro id hid
    rw [hcontains] at hid
    exact h.stored id hid
  · refine hordered.congr (fun _ _ => rfl) fun id hid => ?_
    rwa [hcontains]
  · refine ⟨h.lands hl hidle fun id hid => hannounced id ?_, hidle⟩
    rw [(EventStore.insertAllInTx_spec vs e.store.beginWrite.1).2.2.1, hcontains]
    exact hid

theorem flush (h : InStep loaded o e) (origin : Option PeerId) :
    Passes Outbox.enter (Deed.Fits loaded) (Drained loaded) o
      (e.flushDeeds origin) e.flushStoreBatch := by
  obtain ⟨hl, hidle⟩ := flushStoreBatch_lands h.writes h.retry
  by_cases hnil : e.pendingBatch = []
  · have hdeeds : e.flushDeeds origin = [] := if_pos hnil
    have hsame : e.flushStoreBatch = e := if_pos hnil
    rw [hdeeds, hsame]
    exact .nil ⟨h, hnil⟩
  · have hdeeds : e.flushDeeds origin =
        (e.pendingBatch.zip (EventStore.insertAllInTx e.store.beginWrite.1 e.pendingBatch).2).map e.wroteDeed ++
          told (landedDeeds origin) applyLanded
            (e.pendingBatch.zip (EventStore.insertAllInTx e.store.beginWrite.1 e.pendingBatch).2)
            ({ e with
              pendingBatch := []
              store := (EventStore.insertAllInTx e.store.beginWrite.1 e.pendingBatch).1 } :
              SyncEngine env sealing room) := by
      unfold flushDeeds EventStore.insertAllOutcomes
      dsimp only
      rw [if_neg hnil, if_pos h.writes.beginWrite.1]
    rw [hdeeds]
    exact h.commit h.ordered hl hidle origin _ rfl

theorem store (h : InStep loaded o e) (hidle : e.pendingBatch = []) (origin : Option PeerId)
    {v : ValidatedEvent env room}
    (hv : e.store.contains v.eventId = true ∨ ∀ p ∈ e.knownParents v, e.store.contains p = true) :
    Passes Outbox.enter (Deed.Fits loaded) (Drained loaded) o
      (e.storeDeeds origin v) (e.storeAndFanout v) := by
  obtain ⟨hl, hsame⟩ := storeAndFanout_lands h.writes h.retry v
  have hdeeds : e.storeDeeds origin v =
      ([v].zip (EventStore.insertAllInTx e.store.beginWrite.1 [v]).2).map e.wroteDeed ++
        told (landedDeeds origin) applyLanded ([v].zip (EventStore.insertAllInTx e.store.beginWrite.1 [v]).2)
          ({ e with store := (EventStore.insertAllInTx e.store.beginWrite.1 [v]).1 } :
            SyncEngine env sealing room) := by
    unfold storeDeeds EventStore.insert
    dsimp only
    rw [if_pos h.writes.beginWrite.1]
    exact congrArg _ (List.append_nil _).symm
  have hordered : Ordered e.knownParents (fun id => e.store.contains id = true) [v] := ⟨hv, trivial⟩
  rw [hdeeds]
  exact h.commit hordered hl (hsame.trans hidle) origin _ rfl

end InStep

/-! ### Entering -/

/-- Stored or in the batch. -/
def Held (e : SyncEngine env sealing room) (id : EventId) : Prop :=
  e.store.contains id = true ∨ ∃ w ∈ e.pendingBatch, w.eventId = id

theorem held_of_anchored {v : ValidatedEvent env room} (h : e.anchored v = true) :
    e.Held v.eventId ∨ ∀ p ∈ e.knownParents v, e.Held p := by
  have hbatch : ∀ id, (e.pendingBatch.any fun w => w.eventId == id) = true ↔ ∃ w ∈ e.pendingBatch, w.eventId = id := by
    intro id
    simp only [List.any_eq_true, beq_iff_eq]
  rw [anchored, Bool.or_eq_true, Bool.or_eq_true, hbatch, List.all_eq_true] at h
  refine h.imp_right fun hparents p hp => ?_
  obtain ⟨hcited, haccepted⟩ := List.mem_filter.mp hp
  have hnot := hparents p hcited
  by_contra hlost
  rw [Held, not_or, ← hbatch, Bool.not_eq_true, Bool.not_eq_true] at hlost
  rw [stranded, haccepted, hlost.1, hlost.2] at hnot
  cases hnot

namespace InStep

variable {W : Universe} {v : ValidatedEvent env room}

/-- An accepted event that leaves no parent behind may join the batch. -/
theorem queue (h : InStep loaded o e) (haccepted : e.fold.isAccepted v.eventId = true)
    (hevent : e.fold.event? v.eventId = some v.event) (hanchored : e.anchored v = true)
    (backfillDepth : OrdMap EventId Nat) :
    InStep loaded o ({ e with
      backfillDepth := backfillDepth
      pendingBatch := e.pendingBatch ++ [v] } : SyncEngine env sealing room) := by
  refine ⟨h.settled, h.writes, h.retry, h.stored, fun w hw => ?_, ?_⟩
  · rcases List.mem_append.mp hw with hw | hw
    · exact h.pending w hw
    · rw [List.mem_singleton.mp hw]
      exact ⟨haccepted, hevent⟩
  · exact h.ordered.snoc (fun _ hid => hid) (held_of_anchored hanchored)

theorem deliver (h : InStep loaded o e) (hholds : (W.invariant env room).Holds e) (hv : W.Known v)
    (hanchored : e.anchoredDelivery v = true) (origin : Option PeerId) :
    Passes Outbox.enter (Deed.Fits loaded) (InStep loaded) o (e.deliverDeeds origin v) (e.deliver v) := by
  unfold deliverDeeds SyncEngine.deliver
  by_cases hdoubts : (e.wouldBuffer v && !e.signerPlausible v) = true
  · rw [if_pos hdoubts, if_pos hdoubts]
    exact .nil h
  rw [if_neg hdoubts, if_neg hdoubts]
  rw [anchoredDelivery, Bool.or_eq_true] at hanchored
  have hentry := hanchored.resolve_left hdoubts
  have hfolded := h.ingestFold v
  obtain ⟨-, hoccurs⟩ := (hholds.ingestFold hv).fold
  unfold anchoredEntry at hentry
  dsimp only
  cases hout : (e.ingestFold v).fold.outcome v.eventId with
  | accepted id flags =>
    rw [hout] at hentry
    dsimp only at hentry
    have haccepted := RoomMembership.outcome_accepted hout
    have hevent : (e.ingestFold v).fold.event? v.eventId = some v.event := by
      obtain ⟨event, hevent⟩ := RoomMembership.contains_iff_event?.mp
        (RoomMembership.contains_of_result (RoomMembership.result_ne_none_of_accepted haccepted))
      rw [hevent, ← Option.some.inj ((hoccurs hevent).symm.trans hv)]
    have hqueued := hfolded.queue haccepted hevent hentry ((e.ingestFold v).backfillDepth.erase v.eventId)
    dsimp only
    split_ifs
    · exact (hqueued.flush origin).mono fun _ ho => ho.toInStep
    · exact .nil hqueued
  | buffered id missing =>
    refine (hfolded.flush origin).append fun o' ho' => passes_other ?_ ?_
    · exact ho'.toInStep.untouched (onBuffered_shelves _ v missing).toUntouched
    · exact onBufferedDeeds_unwritten v missing
  | rejected id reason =>
    have hdropped : InStep loaded o ({ e.ingestFold v with
        backfillDepth := (e.ingestFold v).backfillDepth.erase v.eventId } : SyncEngine env sealing room) :=
      hfolded.untouched ⟨rfl, rfl, rfl, rfl, rfl, rfl⟩
    exact (hdropped.flush origin).mono fun _ ho => ho.toInStep

theorem deliverFrame (h : InStep loaded o e) (hholds : (W.invariant env room).Holds e) {frame : Frame}
    (hframe : (W.invariant env room).KnownFrame frame) (hanchored : e.anchoredFrame frame = true)
    (origin : Option PeerId) :
    Passes Outbox.enter (Deed.Fits loaded) (InStep loaded) o (e.deliverFrameDeeds origin frame)
      (e.deliverFrame frame) := by
  unfold anchoredFrame at hanchored
  unfold deliverFrameDeeds SyncEngine.deliverFrame
  by_cases hseen : e.dedupCache.contains frame.eventId = true
  · rw [if_pos hseen, if_pos hseen]
    exact .nil h
  rw [if_neg hseen, if_neg hseen]
  rw [Bool.or_eq_true] at hanchored
  have hvalid := hanchored.resolve_left hseen
  cases hv : validate env ⟨room, none⟩ frame.eventId frame.event with
  | ok v =>
    rw [hv] at hvalid
    obtain ⟨hid, hevent⟩ := validate_ok hv
    exact h.deliver hholds (hframe v hid hevent) hvalid origin
  | error reason => exact .nil h

theorem deliverFrames (h : InStep loaded o e) (hholds : (W.invariant env room).Holds e) {frames : List Frame}
    (hframes : ∀ frame ∈ frames, (W.invariant env room).KnownFrame frame) (hanchored : anchoredFrames frames e = true)
    (origin : Option PeerId) :
    Passes Outbox.enter (Deed.Fits loaded) (InStep loaded) o
      (told (deliverFrameDeeds origin) SyncEngine.deliverFrame frames e)
      (frames.foldl SyncEngine.deliverFrame e) := by
  induction frames generalizing o e with
  | nil => exact .nil h
  | cons frame frames ih =>
    rw [anchoredFrames, Bool.and_eq_true] at hanchored
    have hframe := hframes frame List.mem_cons_self
    refine (h.deliverFrame hholds hframe hanchored.1 origin).append fun o' ho' => ?_
    exact ih ho' (hholds.deliverFrame hframe) (fun f hf => hframes f (List.mem_cons_of_mem _ hf)) hanchored.2

end InStep

/-! ### The park -/

namespace Drained

theorem untouched (h : Drained loaded o e) (hu : Untouched e f) : Drained loaded o f :=
  ⟨h.toInStep.untouched hu, hu.pendingBatch.trans h.idle⟩

theorem flush (h : Drained loaded o e) (origin : Option PeerId) :
    Passes Outbox.enter (Deed.Fits loaded) (Drained loaded) o (e.flushDeeds origin) e.flushStoreBatch :=
  h.toInStep.flush origin

theorem wakeOne {st : SyncEngine env sealing room × Bool} (h : Drained loaded o st.1) {id : EventId}
    (hanchored : anchoredWake st id = true) :
    Passes Outbox.enter (Deed.Fits loaded) (Drained loaded) o (wakeOneDeeds st id) (SyncEngine.wakeOne st id).1 := by
  unfold anchoredWake at hanchored
  unfold wakeOneDeeds SyncEngine.wakeOne
  cases hp : st.1.park.get? id with
  | none => exact .nil h
  | some p =>
    rw [hp] at hanchored
    dsimp only [anchoredEntry] at hanchored ⊢
    have hfolded : Drained loaded o (st.1.ingestFold p.event) := by
      refine ⟨h.toInStep.ingestFold p.event, ?_⟩
      rw [ingestFold_eq]
      exact h.idle
    have hevicted : Drained loaded o ((st.1.ingestFold p.event).evictParked id) :=
      hfolded.untouched (evictParked_shelves _ id).toUntouched
    have hevict : ∀ d ∈ (evictDeeds id : List (Deed env room)), d.aboutEvents = false := by
      simp [evictDeeds, Deed.aboutEvents]
    cases hout : (st.1.ingestFold p.event).fold.outcome p.event.eventId with
    | accepted _ flags =>
      rw [hout] at hanchored
      -- with nothing pending, what is held is stored
      have hstored : ∀ j, (st.1.ingestFold p.event).Held j → (st.1.ingestFold p.event).store.contains j = true := by
        rintro j (hj | ⟨w, hw, -⟩)
        · exact hj
        · rw [hfolded.idle] at hw
          exact absurd hw List.not_mem_nil
      refine (passes_other hevicted hevict).append fun o' ho' => ho'.toInStep.store ho'.idle none ?_
      exact (held_of_anchored hanchored).imp (hstored _) fun hparents j hj => hstored j (hparents j hj)
    | rejected _ reason => exact passes_other hevicted hevict
    | buffered _ missing => exact .nil hfolded

theorem wakePass (ids : List EventId) {st : SyncEngine env sealing room × Bool} (h : Drained loaded o st.1)
    (hanchored : anchoredPass ids st = true) :
    Passes Outbox.enter (Deed.Fits loaded) (Drained loaded) o (told wakeOneDeeds SyncEngine.wakeOne ids st)
      (ids.foldl SyncEngine.wakeOne st).1 := by
  induction ids generalizing o st with
  | nil => exact .nil h
  | cons id ids ih =>
    rw [anchoredPass, Bool.and_eq_true] at hanchored
    exact (h.wakeOne hanchored.1).append fun o' ho' => ih ho' hanchored.2

theorem wakeLoop (fuel : Nat) (h : Drained loaded o e) (hanchored : anchoredLoop fuel e = true) :
    Passes Outbox.enter (Deed.Fits loaded) (Drained loaded) o (wakeLoopDeeds fuel e) (wakeParkLoop fuel e) := by
  induction fuel generalizing o e with
  | zero => exact .nil h
  | succ fuel ih =>
    rw [anchoredLoop, Bool.and_eq_true] at hanchored
    obtain ⟨hpass, hrest⟩ := hanchored
    unfold wakeLoopDeeds wakeParkLoop
    dsimp only
    refine (wakePass e.park.keys h hpass).append fun o' ho' => ?_
    split_ifs at hrest ⊢
    · exact ih ho' hrest
    · exact .nil ho'

theorem wakePark (h : Drained loaded o e) (hanchored : e.anchoredPark = true) :
    Passes Outbox.enter (Deed.Fits loaded) (Drained loaded) o e.wakeParkDeeds e.wakePark := h.wakeLoop _ hanchored

theorem retryPark (h : Drained loaded o e) (hanchored : e.anchoredPark = true) :
    Passes Outbox.enter (Deed.Fits loaded) (Drained loaded) o e.retryParkDeeds e.retryPark := by
  refine (h.wakePark hanchored).append fun o' ho' => passes_other (ho'.untouched ?_) ?_
  · exact (foldl_shelves (fun (e : SyncEngine env sealing room) (p : IdentityKey × Nat × List EventId) =>
      chase_shelves e p.1 p.2.1 p.2.2) _ _).toUntouched
  · exact forall_told (fun (_ : SyncEngine env sealing room) (p : IdentityKey × Nat × List EventId) =>
      chaseDeeds_unwritten p.1 p.2.2) _ _

theorem retryRestoredPark (h : Drained loaded o e) :
    Passes Outbox.enter (Deed.Fits loaded) (Drained loaded) o e.retryRestoredDeeds e.retryRestoredPark :=
  passes_other (h.untouched (retryRestoredPark_shelves e).toUntouched) retryRestoredDeeds_unwritten

end Drained

/-! ### Calls -/

theorem InStep.finalizeDelivery (h : InStep loaded o e) (hanchored : e.flushStoreBatch.anchoredPark = true)
    (origin : Option PeerId) :
    Passes Outbox.enter (Deed.Fits loaded) (Drained loaded) o (e.finalizeDeeds origin) e.finalizeDelivery := by
  have hwoken := (h.flush origin).append fun _ ho => ho.wakePark hanchored
  exact hwoken.append fun _ ho => ho.flush origin

namespace Drained

variable {W : Universe}

theorem onTick (h : Drained loaded o e) (hanchored : e.refillTokens.expireSuspectTip.retryStore.anchoredPark = true)
    (origins : EventId → Option PeerId) :
    Passes Outbox.enter (Deed.Fits loaded) (Drained loaded) o (e.onTickDeeds origins) e.onTick := by
  have hfull : Drained loaded o e.refillTokens := h.untouched ⟨rfl, rfl, rfl, rfl, rfl, rfl⟩
  have hexpired := hfull.untouched (expireSuspectTip_shelves _).toUntouched
  have hrefilled : Passes Outbox.enter (Deed.Fits loaded) (Drained loaded) o (.ticked :: e.refillDeeds)
      e.refillTokens.expireSuspectTip := passes_other hexpired refillDeeds_unwritten
  have hretried : ∀ o', Drained loaded o' e.refillTokens.expireSuspectTip → Passes Outbox.enter (Deed.Fits loaded)
      (Drained loaded) o' (e.refillTokens.expireSuspectTip.retryStoreDeeds origins)
      e.refillTokens.expireSuspectTip.retryStore := by
    intro o' ho'
    have hnone : e.refillTokens.expireSuspectTip.retryStoreDeeds origins = [] := by
      unfold retryStoreDeeds retryOrder
      rw [ho'.retry]
      rfl
    rw [hnone, retryStore_of_empty ho'.retry]
    exact .nil ho'
  exact ((hrefilled.append hretried).append fun _ ho => ho.retryPark hanchored).append fun _ ho =>
    ho.retryRestoredPark

theorem dispatched (h : Drained loaded o e) (hholds : (W.invariant env room).Holds e) {msg : SyncMessage}
    (hframes : ∀ frame ∈ msg.frames, (W.invariant env room).KnownFrame frame)
    (hanchored : anchoredFrames msg.frames e = true) (origin : Option PeerId) :
    Passes Outbox.enter (Deed.Fits loaded) (InStep loaded) o
      (told (deliverFrameDeeds origin) SyncEngine.deliverFrame msg.frames e) (e.dispatched msg) := by
  cases msg with
  | adminTip tip => exact .nil (h.toInStep.untouched (handleAdminTip_shelves e tip).toUntouched)
  | events frames => exact h.toInStep.deliverFrames hholds hframes hanchored origin
  | terminalEvents frames => exact h.toInStep.deliverFrames hholds hframes hanchored origin
  | keyHistory chunks => exact .nil (h.toInStep.untouched (adoptKeyHistory_shelves chunks e).toUntouched)
  | other => exact .nil h.toInStep

/-- One call. -/
theorem call (h : Drained loaded o e) (hholds : (W.invariant env room).Holds e) {c : Call}
    (hframes : ∀ frame ∈ c.input.frames, (W.invariant env room).KnownFrame frame) (hanchored : e.anchoredCall c = true)
    (past : List (Deed env room)) :
    Passes Outbox.enter (Deed.Fits loaded) (Drained loaded) o (e.deeds past c) (e.step c.input) := by
  cases c with
  | ingestFrame sender frame =>
    rw [anchoredCall, Bool.and_eq_true] at hanchored
    exact (h.toInStep.deliverFrame hholds (hframes frame List.mem_cons_self) hanchored.1 _).append fun _ ho =>
      ho.finalizeDelivery hanchored.2 _
  | publish frame =>
    simp only [anchoredCall] at hanchored
    unfold deeds publishDeeds step
    dsimp only [Call.input]
    cases hpublish : e.publish frame with
    | error err => exact .nil h
    | ok e' =>
      obtain ⟨v, hv, rfl⟩ := publish_ok hpublish
      obtain ⟨hid, hevent⟩ := validate_ok hv
      rw [hpublish, hv] at hanchored
      rw [hv]
      dsimp only at hanchored ⊢
      rw [Bool.and_eq_true] at hanchored
      exact (h.toInStep.deliver hholds (hframes frame List.mem_cons_self v hid hevent) hanchored.1 none).append
        fun _ ho => ho.finalizeDelivery hanchored.2 none
  | onConnect peer =>
    exact (h.untouched (f := { e with peers := e.peers.add peer }) ⟨rfl, rfl, rfl, rfl, rfl, rfl⟩).retryRestoredPark
  | onDisconnect peer => exact .nil (h.untouched ⟨rfl, rfl, rfl, rfl, rfl, rfl⟩)
  | onMessage sender msg =>
    show Passes _ _ _ o (e.onMessageDeeds sender msg) (e.onMessage msg.roomId msg.body.toSync)
    unfold onMessageDeeds onMessage
    by_cases hroom : msg.roomId ≠ room
    · rw [if_pos hroom, if_pos hroom]
      exact .nil h
    · rw [if_neg hroom, if_neg hroom]
      rw [anchoredCall, Bool.or_eq_true, decide_eq_true_iff, Bool.and_eq_true] at hanchored
      obtain ⟨hdelivered, hreleased⟩ := hanchored.resolve_left hroom
      exact (h.dispatched hholds hframes hdelivered _).append fun _ ho => ho.finalizeDelivery hreleased _
  | onTick => exact h.onTick hanchored _
  | insertRoomKey epoch key => exact .nil (h.untouched ⟨rfl, rfl, rfl, rfl, rfl, rfl⟩)

end Drained

end SyncEngine

/-! ### Runs -/

namespace Session

variable {loaded : EventId → Bool}

/-- Every write and every announcement comes after the known parents. -/
def InOrderOf (loaded : EventId → Bool) (s : Session env sealing room) : Prop :=
  ∀ pre d post, s.past = pre ++ d :: post → d.Fits loaded (Outbox.after pre)

theorem inOrderOf_iff {s : Session env sealing room} :
    s.InOrderOf loaded ↔ Checked Outbox.enter (Deed.Fits loaded) Outbox.empty s.past := checked_iff.symm

theorem inOrderOf_calls {W : Universe} {calls : List Call} {s : Session env sealing room}
    (hpast : Checked Outbox.enter (Deed.Fits loaded) Outbox.empty s.past)
    (hnow : SyncEngine.Drained loaded (Outbox.after s.past) s.engine) (hholds : (W.invariant env room).Holds s.engine)
    (hframes : ∀ c ∈ calls, ∀ frame ∈ c.input.frames, (W.invariant env room).KnownFrame frame)
    (hanchored : SyncEngine.anchoredRun calls s.engine = true) :
    Checked Outbox.enter (Deed.Fits loaded) Outbox.empty (calls.foldl Session.call s).past := by
  induction calls generalizing s with
  | nil => exact hpast
  | cons c calls ih =>
    rw [SyncEngine.anchoredRun, Bool.and_eq_true] at hanchored
    have hknown := hframes c List.mem_cons_self
    obtain ⟨hchecked, hnext⟩ := hnow.call hholds hknown hanchored.1 s.past
    refine ih (checked_append.mpr ⟨hpast, hchecked⟩) ?_ (hholds.step hknown)
      (fun c' hc' => hframes c' (List.mem_cons_of_mem _ hc')) hanchored.2
    show SyncEngine.Drained loaded ((s.past ++ s.engine.deeds s.past c).foldl Outbox.enter Outbox.empty) _
    rw [List.foldl_append]
    exact hnext

end Session

/-- Over a store whose writes succeed, every write of an event and every announcement of it comes after those of the
parents the fold has accepted, the ones stored from the start apart, in every run in which no event is accepted while a
parent of it is stranded. -/
theorem announced_in_order (W : Universe) {config : SyncConfig} {seed : Option SigningKey} {store : EventStore env room}
    {tables : SyncTables env room} (hwrites : store.NeverFails) (hstore : W.StoreOk store)
    (hparked : ∀ id p, tables.parked.get? id = some p → W.Occurs p.event.eventId p.event.event) {calls : List Call}
    (hframes : ∀ c ∈ calls, ∀ frame ∈ c.input.frames, W.Occurs frame.eventId frame.event)
    (hanchored : SyncEngine.anchoredRun calls
      (.restore config seed store tables : SyncEngine env sealing room) = true) :
    (Session.run config seed store tables calls : Session env sealing room).InOrderOf store.contains := by
  have hidle : SyncEngine.Drained store.contains Outbox.empty
      (.restore config seed store tables : SyncEngine env sealing room) := by
    refine ⟨⟨RoomMembership.settled_fromEvents _, hwrites, rfl, fun _ hid => Or.inl hid, fun v hv => ?_, trivial⟩, rfl⟩
    exact absurd hv List.not_mem_nil
  have hholds : (W.invariant env room).Holds (.restore config seed store tables : SyncEngine env sealing room) :=
    .restore hstore (fun {id p} hp => hparked id p hp) config seed
  have hknown : ∀ c ∈ calls, ∀ frame ∈ c.input.frames, (W.invariant env room).KnownFrame frame :=
    fun c hc frame hf => Universe.knownFrame_of_occurs (hframes c hc frame hf)
  exact Session.inOrderOf_iff.mpr
    (Session.inOrderOf_calls (s := ⟨.restore config seed store tables, []⟩) trivial hidle hholds hknown hanchored)

namespace Toy

/-- Member 2 sends a message, a second one that cites it and a third that cites the second; they arrive in the order
third, second, first. -/
def backwards (second third : Nat) : List (Nat × SignedEvent) := memberRoom ++
  [(third, message 2 "third" [second]), (second, message 2 "second" [4]), (4, message 2 "first" [3])]

def arriving (events : List (Nat × SignedEvent)) : List Call := events.map fun p => .ingestFrame (device 3) (frame p)

/-- The room of those messages; the third has the larger id. -/
def ascending : Universe := roomOf (backwards 5 7) (by decide)

/-- The third has the smaller id. -/
def descending : Universe := roomOf (backwards 7 5) (by decide)

def emptyTables : SyncTables toyEnv Toy.room := ⟨.empty, none, .empty, .empty⟩

theorem storeOk_empty (W : Universe) : W.StoreOk (.openEmpty [] : EventStore toyEnv Toy.room) :=
  (W.invariant toyEnv Toy.room).storeEmpty []

theorem occurs_arriving {W : Universe} {events : List (Nat × SignedEvent)}
    (h : ∀ p ∈ events, W.event? (Bytes32.ofNat p.1) = some p.2) :
    ∀ c ∈ arriving events, ∀ frame ∈ c.input.frames, W.Occurs frame.eventId frame.event := by
  intro c hc frame hf
  obtain ⟨p, hp, rfl⟩ := List.mem_map.mp hc
  rw [List.mem_singleton.mp hf]
  exact h p hp

end Toy

/-- The ids of the parked messages follow the order of their citations, and so do the writes. -/
theorem announced_in_order_ascending :
    (Session.run .standard none (.openEmpty []) Toy.emptyTables (Toy.arriving (Toy.backwards 5 7)) :
      Session toyEnv Toy.sealing Toy.room).InOrderOf
        (EventStore.openEmpty [] : EventStore toyEnv Toy.room).contains := by
  refine announced_in_order Toy.ascending ?_ (Toy.storeOk_empty _) ?_ (Toy.occurs_arriving ?_) ?_
  · exact fun _ hok => absurd hok List.not_mem_nil
  · exact fun _ _ hp => absurd hp (Option.some_ne_none _).symm
  · exact fun _ hp => Toy.event?_roomOf (by decide) hp
  · decide +kernel

/-- The first message releases both parked ones, and the third, whose id is the smaller, is written and announced before
the second, which it cites and the fold has accepted. -/
theorem announced_before_parent :
    (EventStore.openEmpty [] : EventStore toyEnv Toy.room).NeverFails ∧
    Toy.descending.StoreOk (EventStore.openEmpty [] : EventStore toyEnv Toy.room) ∧
    (∀ c ∈ Toy.arriving (Toy.backwards 7 5), ∀ frame ∈ c.input.frames,
      Toy.descending.Occurs frame.eventId frame.event) ∧
    ¬ (Session.run .standard none (.openEmpty []) Toy.emptyTables (Toy.arriving (Toy.backwards 7 5)) :
      Session toyEnv Toy.sealing Toy.room).InOrderOf
        (EventStore.openEmpty [] : EventStore toyEnv Toy.room).contains := by
  refine ⟨fun _ hok => absurd hok List.not_mem_nil, Toy.storeOk_empty _, ?_, ?_⟩
  · exact Toy.occurs_arriving fun _ hp => Toy.event?_roomOf (by decide) hp
  · rw [Session.inOrderOf_iff]
    decide +kernel

end IrohRooms
