import IrohRooms.Sync.Journal
import IrohRooms.Sync.Stored

/-!
# Failed writes

An accepted event whose write fails waits in a queue and is tried again on every tick, in the order of the queue, until
a try fails. `Outbox` follows through a journal which events were written, reported and fanned out, and which wait.
Whatever writes fail, every event is reported at most once and pushed to a peer at most once, never before it is
written, and leaves the queue written or with a `store_degraded` decision (`recovered_once`).
-/

namespace IrohRooms

open Journal

variable {env : Env} {sealing : Sealing} {room : RoomId}

/-- What became of the events, as far as a journal goes. -/
structure Outbox where
  written : List EventId
  reported : List EventId
  fannedOut : List (EventId × PeerId)
  waiting : OrdSet EventId

namespace Outbox

def empty : Outbox := ⟨[], [], [], .empty⟩

def enter (o : Outbox) : Deed env room → Outbox
  | .wrote v .inserted _ => { o with written := o.written ++ [v.eventId] }
  | .reported v _ => { o with reported := o.reported ++ [v.eventId] }
  | .fannedOut v peer _ => { o with fannedOut := o.fannedOut ++ [(v.eventId, peer)] }
  | .queued v _ => { o with waiting := o.waiting.add v.eventId }
  | .dequeued id => { o with waiting := OrdMap.erase o.waiting id }
  | _ => o

def after (past : List (Deed env room)) : Outbox := past.foldl enter empty

theorem enter_of_not_aboutEvents {d : Deed env room} (h : d.aboutEvents = false) (o : Outbox) : o.enter d = o := by
  cases d <;> first | rfl | cases h

/-- Nothing is told twice, nothing is told that was not written, and the queue is within its cap. -/
structure Orderly (cap : Nat) (o : Outbox) : Prop where
  reportedOnce : o.reported.Nodup
  fannedOutOnce : o.fannedOut.Nodup
  reported : ∀ id ∈ o.reported, id ∈ o.written
  fannedOut : ∀ p ∈ o.fannedOut, p.1 ∈ o.reported
  waiting : o.waiting.toList.length ≤ cap

/-- Written and not yet reported. -/
structure Untold (ids : List EventId) (o : Outbox) : Prop where
  distinct : ids.Nodup
  written : ∀ id ∈ ids, id ∈ o.written
  untold : ∀ id ∈ ids, id ∉ o.reported

end Outbox

/-- The ids of the rows a transaction added. -/
def insertedIds (landed : List (ValidatedEvent env room × InsertOutcome)) : List EventId :=
  landed.filterMap fun p =>
    match p.2 with
    | .inserted => some p.1.eventId
    | .duplicate => none

namespace EventStore

variable {s : EventStore env room}

/-- The rows a transaction adds are new, and no two are of one event. -/
theorem insertedIds_insertAllInTx (vs : List (ValidatedEvent env room)) (s : EventStore env room) :
    (insertedIds (vs.zip (insertAllInTx s vs).2)).Nodup ∧
      ∀ id ∈ insertedIds (vs.zip (insertAllInTx s vs).2), s.contains id = false ∧ ∃ v ∈ vs, v.eventId = id := by
  induction vs generalizing s with
  | nil => exact ⟨List.nodup_nil, fun _ hid => absurd hid List.not_mem_nil⟩
  | cons v vs ih =>
    obtain ⟨hnodup, hnew⟩ := ih (s.insertInTx v).1
    have hrest : ∀ id ∈ insertedIds (vs.zip (insertAllInTx (s.insertInTx v).1 vs).2),
        s.contains id = false ∧ id ≠ v.eventId ∧ ∃ w ∈ v :: vs, w.eventId = id := by
      intro id hid
      obtain ⟨hafter, w, hw, hwid⟩ := hnew id hid
      have hbefore := (insertInTx_contains s v id).not.mp (by rw [hafter]; exact Bool.false_ne_true)
      rw [not_or, Bool.not_eq_true] at hbefore
      exact ⟨hbefore.1, hbefore.2, w, List.mem_cons_of_mem _ hw, hwid⟩
    by_cases hstored : s.contains v.eventId = true
    · have hsame := insertInTx_duplicate hstored
      have htail : insertedIds ((v :: vs).zip (insertAllInTx s (v :: vs)).2) =
          insertedIds (vs.zip (insertAllInTx (s.insertInTx v).1 vs).2) := by
        show insertedIds ((v, (s.insertInTx v).2) :: vs.zip (insertAllInTx (s.insertInTx v).1 vs).2) = _
        rw [hsame]
        rfl
      rw [htail]
      exact ⟨hnodup, fun id hid => ⟨(hrest id hid).1, (hrest id hid).2.2⟩⟩
    · have hfresh := insertInTx_inserted hstored
      have hhead : insertedIds ((v :: vs).zip (insertAllInTx s (v :: vs)).2) =
          v.eventId :: insertedIds (vs.zip (insertAllInTx (s.insertInTx v).1 vs).2) := by
        show insertedIds ((v, (s.insertInTx v).2) :: vs.zip (insertAllInTx (s.insertInTx v).1 vs).2) = _
        rw [hfresh]
        rfl
      rw [hhead]
      refine ⟨List.nodup_cons.mpr ⟨fun hmem => (hrest _ hmem).2.1 rfl, hnodup⟩, fun id hid => ?_⟩
      rcases List.mem_cons.mp hid with rfl | hid
      · exact ⟨Bool.eq_false_iff.mpr hstored, v, List.mem_cons_self, rfl⟩
      · exact ⟨(hrest id hid).1, (hrest id hid).2.2⟩

/-- A store after a transaction: nothing is lost, and the rows it added were not there. -/
structure Gains (s t : EventStore env room) (landed : List (ValidatedEvent env room × InsertOutcome)) : Prop where
  kept : ∀ id, s.contains id = true → t.contains id = true
  distinct : (insertedIds landed).Nodup
  new : ∀ id ∈ insertedIds landed, s.contains id = false
  stored : ∀ id ∈ insertedIds landed, t.contains id = true

theorem beginWrite_contains (s : EventStore env room) (id : EventId) : s.beginWrite.1.contains id = s.contains id := by
  unfold beginWrite
  split <;> rfl

/-- Only a transaction that succeeds changes the rows. -/
theorem insertAllOutcomes_gains {vs : List (ValidatedEvent env room)} {outcomes : List InsertOutcome}
    (h : (s.insertAllOutcomes vs).2 = some outcomes) : Gains s (s.insertAllOutcomes vs).1 (vs.zip outcomes) := by
  unfold insertAllOutcomes at h ⊢
  dsimp only at h ⊢
  split_ifs at h ⊢
  obtain rfl := Option.some.inj h
  obtain ⟨-, -, hcontains, -⟩ := insertAllInTx_spec vs s.beginWrite.1
  obtain ⟨hnodup, hnew⟩ := insertedIds_insertAllInTx vs s.beginWrite.1
  refine ⟨fun id hid => (hcontains id).mpr (Or.inl ?_), hnodup, fun id hid => ?_, fun id hid => ?_⟩
  · rwa [beginWrite_contains]
  · rw [← beginWrite_contains]
    exact (hnew id hid).1
  · exact (hcontains id).mpr (Or.inr (hnew id hid).2)

theorem insertAllOutcomes_failed {vs : List (ValidatedEvent env room)} (h : (s.insertAllOutcomes vs).2 = none)
    (id : EventId) : (s.insertAllOutcomes vs).1.contains id = s.contains id := by
  unfold insertAllOutcomes at h ⊢
  dsimp only at h ⊢
  split_ifs at h ⊢
  exact beginWrite_contains s id

/-- The insert of one event is a transaction over it alone. -/
theorem insert_eq (s : EventStore env room) (v : ValidatedEvent env room) :
    s.insert v = ((s.insertAllOutcomes [v]).1, (s.insertAllOutcomes [v]).2.bind List.head?) := by
  unfold insert insertAllOutcomes
  dsimp only
  split_ifs <;> rfl

theorem insert_gains {v : ValidatedEvent env room} {outcome : InsertOutcome} (h : (s.insert v).2 = some outcome) :
    Gains s (s.insert v).1 [(v, outcome)] := by
  rw [insert_eq] at h ⊢
  obtain ⟨outcomes, houtcomes, hhead⟩ := Option.bind_eq_some_iff.mp h
  have hgains := insertAllOutcomes_gains houtcomes
  cases outcomes with
  | nil => cases hhead
  | cons o os =>
    obtain rfl := Option.some.inj hhead
    rwa [List.zip_cons_cons, List.zip_nil_left] at hgains

theorem insert_failed {v : ValidatedEvent env room} (h : (s.insert v).2 = none) (id : EventId) :
    (s.insert v).1.contains id = s.contains id := by
  unfold insert at h ⊢
  dsimp only at h ⊢
  split_ifs at h ⊢
  exact beginWrite_contains s id

end EventStore

/-- The journal has led to the engine. -/
structure Tracks (cap : Nat) (o : Outbox) (e : SyncEngine env sealing room) : Prop extends o.Orderly cap where
  cap : e.config.maxStoreRetryTotal = cap
  stored : ∀ id ∈ o.written, e.store.contains id = true
  queue : o.waiting = e.storeRetry.mapValues fun _ => ()

namespace Tracks

variable {cap : Nat} {o : Outbox} {e f : SyncEngine env sealing room}

theorem congr (h : Tracks cap o e) (hconfig : f.config = e.config) (hstore : f.store = e.store)
    (hretry : f.storeRetry = e.storeRetry) : Tracks cap o f := by
  refine ⟨h.toOrderly, ?_, ?_, ?_⟩
  · rw [hconfig, h.cap]
  · rw [hstore]
    exact h.stored
  · rw [hretry, h.queue]

theorem length_waiting (h : Tracks cap o e) : o.waiting.toList.length = e.storeRetry.entries.length := by
  rw [h.queue]
  show ((e.storeRetry.entries.map _).map _).length = _
  rw [List.length_map, List.length_map]

theorem nodup_snoc {α : Type} {l : List α} {a : α} (h : l.Nodup) (ha : a ∉ l) : (l ++ [a]).Nodup := by
  rw [← List.concat_eq_append]
  exact h.concat ha

/-- Deeds that concern none of this. -/
theorem leads_other (h : Tracks cap o e) {es : List (Deed env room)} (hes : ∀ d ∈ es, ∀ o : Outbox, o.enter d = o) :
    Leads Outbox.enter (Tracks cap) (Outbox.Orderly cap) o es e := by
  induction es with
  | nil => exact .nil h h.toOrderly
  | cons d es ih =>
    refine .cons h.toOrderly ?_
    rw [hes d List.mem_cons_self]
    exact ih fun d' hd' => hes d' (List.mem_cons_of_mem _ hd')

/-- A reported event is pushed to peers it was not pushed to before. -/
theorem fanout (h : Tracks cap o e) {v : ValidatedEvent env room} (hreported : v.eventId ∈ o.reported)
    {peers : List PeerId} (hnodup : peers.Nodup) (hnew : ∀ peer ∈ peers, (v.eventId, peer) ∉ o.fannedOut)
    {ids : List EventId} (hids : o.Untold ids) (known : List EventId) :
    Leads Outbox.enter (fun o e => Tracks cap o e ∧ o.Untold ids) (Outbox.Orderly cap) o
      (peers.map fun peer => .fannedOut v peer known) e := by
  induction peers generalizing o with
  | nil => exact .nil ⟨h, hids⟩ h.toOrderly
  | cons peer peers ih =>
    obtain ⟨hpeer, hrest⟩ := List.nodup_cons.mp hnodup
    have hone : (v.eventId, peer) ∉ o.fannedOut := hnew peer List.mem_cons_self
    have horderly : (o.enter (.fannedOut v peer known)).Orderly cap := by
      refine ⟨h.reportedOnce, ?_, h.reported, fun p hp => ?_, h.waiting⟩
      · exact nodup_snoc h.fannedOutOnce hone
      · rcases List.mem_append.mp hp with hp | hp
        · exact h.fannedOut p hp
        · rw [List.mem_singleton.mp hp]
          exact hreported
    refine .cons h.toOrderly (ih ⟨horderly, h.cap, h.stored, h.queue⟩ hreported hrest (fun peer' hpeer' hmem => ?_)
      ⟨hids.distinct, hids.written, hids.untold⟩)
    rcases List.mem_append.mp hmem with hmem | hmem
    · exact hnew peer' (List.mem_cons_of_mem _ hpeer') hmem
    · have hsame : peer' = peer := congrArg Prod.snd (List.mem_singleton.mp hmem)
      exact hpeer (hsame ▸ hpeer')

/-- A fresh row is reported and pushed; the other ids are still to be told. -/
theorem outcome (h : Tracks cap o e) (origin : Option PeerId) (f : SyncEngine env sealing room)
    (outcome : InsertOutcome) (v : ValidatedEvent env room) {ids : List EventId}
    (hids : o.Untold (insertedIds [(v, outcome)] ++ ids)) :
    Leads Outbox.enter (fun o e => Tracks cap o e ∧ o.Untold ids) (Outbox.Orderly cap) o
      (f.outcomeDeeds origin outcome v) e := by
  cases outcome with
  | duplicate => exact .nil ⟨h, hids⟩ h.toOrderly
  | inserted =>
    obtain ⟨hfirst, hdistinct⟩ := List.nodup_cons.mp hids.distinct
    have hwritten : v.eventId ∈ o.written := hids.written _ List.mem_cons_self
    have huntold : v.eventId ∉ o.reported := hids.untold _ List.mem_cons_self
    have horderly : (o.enter (.reported v (f.knownParents v))).Orderly cap := by
      refine ⟨nodup_snoc h.reportedOnce huntold, h.fannedOutOnce, fun id hid => ?_, ?_, h.waiting⟩
      · rcases List.mem_append.mp hid with hid | hid
        · exact h.reported id hid
        · rw [List.mem_singleton.mp hid]
          exact hwritten
      · exact fun p hp => List.mem_append_left _ (h.fannedOut p hp)
    refine .cons h.toOrderly (fanout ⟨horderly, h.cap, h.stored, h.queue⟩ ?_ ?_ ?_ ⟨hdistinct, ?_, ?_⟩ _)
    · exact List.mem_append_right _ List.mem_cons_self
    · exact (OrdMap.keys_nodup _).filter _
    · exact fun peer _ hmem => huntold (h.fannedOut _ hmem)
    · exact fun id hid => hids.written id (List.mem_cons_of_mem _ hid)
    · intro id hid hreported
      rcases List.mem_append.mp hreported with hold | hself
      · exact hids.untold id (List.mem_cons_of_mem _ hid) hold
      · rw [List.mem_singleton.mp hself] at hid
        exact hfirst hid

theorem dequeue (h : Tracks cap o e) (id : EventId) : Tracks cap (o.enter (.dequeued id : Deed env room))
    ({ e with storeRetry := e.storeRetry.erase id } : SyncEngine env sealing room) := by
  refine ⟨⟨h.reportedOnce, h.fannedOutOnce, h.reported, h.fannedOut, ?_⟩, h.cap, h.stored, ?_⟩
  · have hfewer : (OrdMap.erase o.waiting id).keys.length ≤ o.waiting.keys.length := by
      rw [OrdMap.length_keys, OrdMap.length_keys]
      exact List.length_filter_le _ _
    exact hfewer.trans h.waiting
  · show OrdMap.erase o.waiting id = (e.storeRetry.erase id).mapValues _
    rw [OrdMap.mapValues_erase, h.queue]

theorem applyInsertOutcome (h : Tracks cap o e) (outcome : InsertOutcome) (v : ValidatedEvent env room) :
    Tracks cap o (e.applyInsertOutcome outcome v) := by
  cases outcome <;> exact h.congr rfl rfl rfl

theorem landed (h : Tracks cap o e) (origin : Option PeerId) (landed : ValidatedEvent env room × InsertOutcome)
    {ids : List EventId} (hids : o.Untold (insertedIds [landed] ++ ids)) :
    Leads Outbox.enter (fun o e => Tracks cap o e ∧ o.Untold ids) (Outbox.Orderly cap) o
      (e.landedDeeds origin landed) (e.applyLanded landed) := by
  have hdequeued := h.dequeue landed.1.eventId
  have huntold : (o.enter (.dequeued landed.1.eventId : Deed env room)).Untold (insertedIds [landed] ++ ids) :=
    ⟨hids.distinct, hids.written, hids.untold⟩
  exact .cons h.toOrderly ((hdequeued.outcome origin e landed.2 landed.1 huntold).mono fun o ho =>
    ⟨ho.1.applyInsertOutcome landed.2 landed.1, ho.2⟩)

theorem insertedIds_cons (landed : ValidatedEvent env room × InsertOutcome)
    (rest : List (ValidatedEvent env room × InsertOutcome)) :
    insertedIds (landed :: rest) = insertedIds [landed] ++ insertedIds rest :=
  List.filterMap_append (l := [landed]) ..

theorem landing (h : Tracks cap o e) (origin : Option PeerId)
    {landed : List (ValidatedEvent env room × InsertOutcome)} (hids : o.Untold (insertedIds landed)) :
    Leads Outbox.enter (Tracks cap) (Outbox.Orderly cap) o
      (told (SyncEngine.landedDeeds origin) SyncEngine.applyLanded landed e)
      (landed.foldl SyncEngine.applyLanded e) := by
  induction landed generalizing o e with
  | nil => exact .nil h h.toOrderly
  | cons first rest ih =>
    rw [insertedIds_cons] at hids
    exact (h.landed origin first hids).append fun hnext => ih hnext.1 hnext.2

/-- The writes of a transaction. -/
theorem leads_wrote {P : Outbox → SyncEngine env sealing room → Prop} (g : SyncEngine env sealing room)
    (landed : List (ValidatedEvent env room × InsertOutcome)) (horderly : o.Orderly cap)
    (hend : P { o with written := o.written ++ insertedIds landed } f) :
    Leads Outbox.enter P (Outbox.Orderly cap) o (landed.map g.wroteDeed) f := by
  induction landed generalizing o with
  | nil =>
    rw [insertedIds, List.filterMap_nil, List.append_nil] at hend
    exact .nil hend horderly
  | cons first rest ih =>
    obtain ⟨v, outcome⟩ := first
    rw [insertedIds_cons, ← List.append_assoc] at hend
    refine .cons horderly ?_
    cases outcome with
    | duplicate =>
      rw [insertedIds, List.filterMap_cons_none rfl, List.filterMap_nil, List.append_nil] at hend
      exact ih horderly hend
    | inserted =>
      refine ih ⟨horderly.reportedOnce, horderly.fannedOutOnce, fun id hid => ?_, horderly.fannedOut,
        horderly.waiting⟩ hend
      exact List.mem_append_left _ (horderly.reported id hid)

/-- The rows a transaction added are stored then, and nobody has been told. -/
theorem gains (h : Tracks cap o e) (g : SyncEngine env sealing room)
    {landed : List (ValidatedEvent env room × InsertOutcome)} (hgains : e.store.Gains f.store landed)
    (hconfig : f.config = e.config) (hretry : f.storeRetry = e.storeRetry) :
    Leads Outbox.enter (fun o f => Tracks cap o f ∧ o.Untold (insertedIds landed)) (Outbox.Orderly cap) o
      (landed.map g.wroteDeed) f := by
  refine leads_wrote g landed h.toOrderly ⟨⟨⟨h.reportedOnce, h.fannedOutOnce, fun id hid => ?_, h.fannedOut,
    h.waiting⟩, ?_, fun id hid => ?_, ?_⟩, hgains.distinct, fun id hid => List.mem_append_right _ hid,
    fun id hid hreported => ?_⟩
  · exact List.mem_append_left _ (h.reported id hid)
  · rw [hconfig, h.cap]
  · rcases List.mem_append.mp hid with hold | hnew
    · exact hgains.kept id (h.stored id hold)
    · exact hgains.stored id hnew
  · rw [hretry, ← h.queue]
  · have hstored := h.stored id (h.reported id hreported)
    rw [hgains.new id hid] at hstored
    cases hstored

/-- A write that fails leaves the rows as they are. -/
theorem fails (h : Tracks cap o e) (hrows : ∀ id, f.store.contains id = e.store.contains id)
    (hconfig : f.config = e.config) (hretry : f.storeRetry = e.storeRetry) : Tracks cap o f := by
  refine ⟨h.toOrderly, ?_, fun id hid => ?_, ?_⟩
  · rw [hconfig, h.cap]
  · rw [hrows]
    exact h.stored id hid
  · rw [hretry, ← h.queue]

theorem enqueue (origin : Option PeerId) (h : Tracks cap o e) (v : ValidatedEvent env room) :
    Leads Outbox.enter (Tracks cap) (Outbox.Orderly cap) o (e.enqueueDeeds origin v) (e.enqueueStoreRetry v) := by
  unfold SyncEngine.enqueueDeeds SyncEngine.enqueueStoreRetry
  split_ifs with hwaiting hfull
  · exact .nil h h.toOrderly
  · exact .cons h.toOrderly (.nil h h.toOrderly)
  · have horderly : (o.enter (.queued v origin)).Orderly cap := by
      refine ⟨h.reportedOnce, h.fannedOutOnce, h.reported, h.fannedOut, ?_⟩
      refine (o.waiting.length_add_le v.eventId).trans ?_
      rw [h.length_waiting, ← h.cap]
      omega
    refine .cons h.toOrderly (.nil ⟨horderly, h.cap, h.stored, ?_⟩ horderly)
    show o.waiting.add v.eventId = (e.storeRetry.insert v.eventId _).mapValues _
    rw [OrdMap.mapValues_insert, h.queue]
    rfl

theorem enqueueAll (origin : Option PeerId) (h : Tracks cap o e) (vs : List (ValidatedEvent env room)) :
    Leads Outbox.enter (Tracks cap) (Outbox.Orderly cap) o
      (told (SyncEngine.enqueueDeeds origin) SyncEngine.enqueueStoreRetry vs e)
      (vs.foldl SyncEngine.enqueueStoreRetry e) := by
  induction vs generalizing o e with
  | nil => exact .nil h h.toOrderly
  | cons v vs ih => exact (h.enqueue origin v).append fun hnext => ih hnext

theorem flush (h : Tracks cap o e) (origin : Option PeerId) :
    Leads Outbox.enter (Tracks cap) (Outbox.Orderly cap) o (e.flushDeeds origin) e.flushStoreBatch := by
  unfold SyncEngine.flushDeeds SyncEngine.flushStoreBatch
  by_cases hnone : e.pendingBatch = []
  · rw [if_pos hnone, if_pos hnone]
    exact .nil h h.toOrderly
  rw [if_neg hnone, if_neg hnone]
  dsimp only
  cases hoverall : (e.store.insertAllOutcomes e.pendingBatch).2 with
  | some outcomes =>
    have hwrote : Leads Outbox.enter
        (fun o f => Tracks cap o f ∧ o.Untold (insertedIds (e.pendingBatch.zip outcomes))) (Outbox.Orderly cap) o
        ((e.pendingBatch.zip outcomes).map e.wroteDeed)
        ({ e with pendingBatch := [], store := (e.store.insertAllOutcomes e.pendingBatch).1 } :
          SyncEngine env sealing room) := h.gains e (EventStore.insertAllOutcomes_gains hoverall) rfl rfl
    exact hwrote.append fun hnow => hnow.1.landing origin hnow.2
  | none =>
    have hfailed : Tracks cap o ({ e with pendingBatch := [], store := (e.store.insertAllOutcomes e.pendingBatch).1 } :
        SyncEngine env sealing room) := h.fails (EventStore.insertAllOutcomes_failed hoverall) rfl rfl
    refine (hfailed.leads_other fun d hd => ?_).append fun hnow => hnow.enqueueAll origin e.pendingBatch
    obtain ⟨v, -, rfl⟩ := List.mem_map.mp hd
    exact fun _ => rfl

theorem store (h : Tracks cap o e) (origin : Option PeerId) (v : ValidatedEvent env room) :
    Leads Outbox.enter (Tracks cap) (Outbox.Orderly cap) o (e.storeDeeds origin v) (e.storeAndFanout v) := by
  unfold SyncEngine.storeDeeds SyncEngine.storeAndFanout
  dsimp only
  cases hoverall : (e.store.insert v).2 with
  | some outcome =>
    have hwrote : Leads Outbox.enter (fun o f => Tracks cap o f ∧ o.Untold (insertedIds [(v, outcome)]))
        (Outbox.Orderly cap) o [e.wroteDeed (v, outcome)]
        ({ e with store := (e.store.insert v).1 } : SyncEngine env sealing room) :=
      h.gains e (EventStore.insert_gains hoverall) rfl rfl
    refine hwrote.append fun hnow => ?_
    have huntold := hnow.2
    rw [← List.append_nil (insertedIds _)] at huntold
    exact (hnow.1.landed origin (v, outcome) huntold).mono fun _ hlanded => hlanded.1
  | none =>
    have hfailed : Tracks cap o ({ e with store := (e.store.insert v).1 } : SyncEngine env sealing room) :=
      h.fails (EventStore.insert_failed hoverall) rfl rfl
    exact .cons h.toOrderly (hfailed.enqueue origin v)

theorem retryLoop (origins : EventId → Option PeerId) (ids : List EventId) (h : Tracks cap o e) :
    Leads Outbox.enter (Tracks cap) (Outbox.Orderly cap) o (SyncEngine.retryLoopDeeds origins ids e)
      (SyncEngine.retryStoreLoop ids e) := by
  induction ids generalizing o e with
  | nil => exact .nil h h.toOrderly
  | cons id ids ih =>
    unfold SyncEngine.retryLoopDeeds SyncEngine.retryStoreLoop
    cases hget : e.storeRetry.get? id with
    | none => exact ih h
    | some r =>
      dsimp only
      cases hoverall : (e.store.insert r.event).2 with
      | some outcome =>
        have hwrote : Leads Outbox.enter (fun o f => Tracks cap o f ∧ o.Untold (insertedIds [(r.event, outcome)]))
            (Outbox.Orderly cap) o [e.wroteDeed (r.event, outcome)]
            ({ e with store := (e.store.insert r.event).1 } : SyncEngine env sealing room) :=
          h.gains e (EventStore.insert_gains hoverall) rfl rfl
        refine hwrote.append fun hnow => .cons hnow.1.toOrderly ?_
        have hdequeued := hnow.1.dequeue id
        have huntold := hnow.2
        rw [← List.append_nil (insertedIds _)] at huntold
        refine (hdequeued.outcome (origins id) _ outcome r.event
          ⟨huntold.distinct, huntold.written, huntold.untold⟩).append fun hnext => ?_
        exact ih (hnext.1.applyInsertOutcome outcome r.event)
      | none =>
        have hfailed : Tracks cap o ({ e with store := (e.store.insert r.event).1 } : SyncEngine env sealing room) :=
          h.fails (EventStore.insert_failed hoverall) rfl rfl
        refine .cons h.toOrderly ?_
        unfold SyncEngine.failRetry
        split_ifs
        · have hdequeued := hfailed.dequeue id
          exact .cons h.toOrderly (.cons hdequeued.toOrderly (.nil hdequeued hdequeued.toOrderly))
        · refine .nil ⟨h.toOrderly, h.cap, hfailed.stored, ?_⟩ h.toOrderly
          have hwaiting : (e.storeRetry.mapValues fun _ => ()).get? id = some () := by
            rw [OrdMap.get?_mapValues, hget]
            rfl
          rw [OrdMap.mapValues_insert, OrdMap.insert_of_get? hwaiting]
          exact h.queue

/-- Every move keeps what was written, told and queued in order. -/
theorem move (h : Tracks cap o e) {es : List (Deed env room)} (hmove : SyncEngine.Move e es f) :
    Leads Outbox.enter (Tracks cap) (Outbox.Orderly cap) o es f := by
  rcases hmove.unwritten_or with ⟨hsame, hes⟩ | ⟨-, -, ⟨origin, rfl, rfl⟩ | ⟨origin, v, rfl, rfl⟩ | ⟨origins, rfl, rfl⟩⟩
  · exact (h.leads_other fun d hd => Outbox.enter_of_not_aboutEvents (hes d hd)).mono fun _ ho =>
      ho.congr hsame.config hsame.store hsame.storeRetry
  · exact h.flush origin
  · exact h.store origin v
  · exact h.retryLoop origins _

end Tracks

/-! ### Leaving the queue -/

namespace SyncEngine

variable {e f g : SyncEngine env sealing room} {es ds : List (Deed env room)}

/-- Events wait under their own ids. -/
def Filed (e : SyncEngine env sealing room) : Prop := ∀ id r, e.storeRetry.get? id = some r → r.event.eventId = id

/-- A write of the event succeeded, or it was given up with a decision. -/
def Resolved (id : EventId) (es : List (Deed env room)) : Prop :=
  (∃ v outcome known, .wrote v outcome known ∈ es ∧ v.eventId = id) ∨ .degraded id ∈ es

theorem Resolved.of_sublist {id : EventId} (h : Resolved id es) (hsub : ∀ d ∈ es, d ∈ ds) : Resolved id ds := by
  rcases h with ⟨v, outcome, known, hwrote, hid⟩ | hdegraded
  · exact Or.inl ⟨v, outcome, known, hsub _ hwrote, hid⟩
  · exact Or.inr (hsub _ hdegraded)

/-- Whoever left the queue is resolved. -/
structure Drains (e : SyncEngine env sealing room) (es : List (Deed env room)) (f : SyncEngine env sealing room) :
    Prop where
  filed : f.Filed
  left : ∀ id, e.storeRetry.contains id = true → f.storeRetry.contains id = true ∨ Resolved id es

theorem Drains.of_queue (h : e.Filed) (hqueue : f.storeRetry = e.storeRetry) : Drains e es f := by
  refine ⟨fun id r hr => h id r ?_, fun id hid => Or.inl ?_⟩
  · rwa [← hqueue]
  · rwa [hqueue]

theorem Drains.trans (h : Drains e es f) (h' : Drains f ds g) : Drains e (es ++ ds) g := by
  refine ⟨h'.filed, fun id hid => ?_⟩
  rcases h.left id hid with hstill | hresolved
  · exact (h'.left id hstill).imp_right fun hresolved => hresolved.of_sublist fun _ hd => List.mem_append_right _ hd
  · exact Or.inr (hresolved.of_sublist fun _ hd => List.mem_append_left _ hd)

/-- The queue is all that counts of the state before. -/
theorem Drains.after (h : Drains f es g) (hqueue : f.storeRetry = e.storeRetry) : Drains e es g :=
  ⟨h.filed, fun id hid => h.left id (hqueue ▸ hid)⟩

theorem Drains.more (h : Drains e es f) (hsub : ∀ d ∈ es, d ∈ ds) : Drains e ds f :=
  ⟨h.filed, fun id hid => (h.left id hid).imp_right fun hresolved => hresolved.of_sublist hsub⟩

theorem Filed.erase {id : EventId} (h : e.Filed) (hqueue : f.storeRetry = e.storeRetry.erase id) : f.Filed := by
  intro id r hr
  rw [hqueue, OrdMap.get?_erase] at hr
  split_ifs at hr
  exact h id r hr

theorem enqueueStoreRetry_drains (h : e.Filed) (v : ValidatedEvent env room) : Drains e es (e.enqueueStoreRetry v) := by
  unfold enqueueStoreRetry
  split_ifs
  · exact .of_queue h rfl
  · exact .of_queue h rfl
  · refine ⟨fun id r hr => ?_, fun id hid => Or.inl ?_⟩
    · rw [OrdMap.get?_insert] at hr
      split_ifs at hr with hself
      · rw [← Option.some.inj hr, hself]
      · exact h id r hr
    · rw [OrdMap.contains, OrdMap.get?_insert]
      split_ifs
      · rfl
      · exact hid

/-- An event that waits under an id leaves the queue with its write. -/
theorem dequeued_drains {id : EventId} (h : e.Filed) (hqueue : f.storeRetry = e.storeRetry.erase id)
    {v : ValidatedEvent env room} (hv : v.eventId = id) {outcome : InsertOutcome} {known : List EventId}
    (hwrote : .wrote v outcome known ∈ es) : Drains e es f := by
  refine ⟨h.erase hqueue, fun other hother => ?_⟩
  by_cases hsame : other = id
  · exact Or.inr (Or.inl ⟨v, outcome, known, hwrote, hv.trans hsame.symm⟩)
  · left
    rwa [hqueue, OrdMap.contains, OrdMap.get?_erase, if_neg hsame]

theorem applyInsertOutcome_storeRetry (outcome : InsertOutcome) (v : ValidatedEvent env room) :
    (e.applyInsertOutcome outcome v).storeRetry = e.storeRetry := by
  cases outcome <;> rfl

theorem landing_drains (h : e.Filed) (landed : List (ValidatedEvent env room × InsertOutcome))
    (hwrote : ∀ p ∈ landed, ∃ known, .wrote p.1 p.2 known ∈ es) : Drains e es (landed.foldl applyLanded e) := by
  induction landed generalizing e with
  | nil => exact .of_queue h rfl
  | cons first rest ih =>
    obtain ⟨known, hfirst⟩ := hwrote first List.mem_cons_self
    have hone : Drains e es (e.applyLanded first) :=
      dequeued_drains h (applyInsertOutcome_storeRetry first.2 first.1) rfl hfirst
    have hrest := ih hone.filed fun p hp => hwrote p (List.mem_cons_of_mem _ hp)
    exact (hone.trans hrest).more fun d hd => (List.mem_append.mp hd).elim id id

theorem enqueueAll_drains (h : e.Filed) (vs : List (ValidatedEvent env room)) :
    Drains e es (vs.foldl enqueueStoreRetry e) := by
  induction vs generalizing e with
  | nil => exact .of_queue h rfl
  | cons v vs ih =>
    have hone : Drains e es (e.enqueueStoreRetry v) := enqueueStoreRetry_drains h v
    exact (hone.trans (ih hone.filed)).more fun d hd => (List.mem_append.mp hd).elim id id

theorem flushStoreBatch_drains (h : e.Filed) (origin : Option PeerId) :
    Drains e (e.flushDeeds origin) e.flushStoreBatch := by
  unfold flushDeeds flushStoreBatch
  by_cases hnone : e.pendingBatch = []
  · rw [if_pos hnone, if_pos hnone]
    exact .of_queue h rfl
  rw [if_neg hnone, if_neg hnone]
  dsimp only
  cases (e.store.insertAllOutcomes e.pendingBatch).2 with
  | some outcomes =>
    have hcleared : Filed ({ e with pendingBatch := [], store := (e.store.insertAllOutcomes e.pendingBatch).1 } :
        SyncEngine env sealing room) := h
    refine (landing_drains hcleared _ fun p hp => ⟨e.knownParents p.1, List.mem_append_left _ ?_⟩).after rfl
    exact List.mem_map.mpr ⟨p, hp, rfl⟩
  | none =>
    have hcleared : Filed ({ e with pendingBatch := [], store := (e.store.insertAllOutcomes e.pendingBatch).1 } :
        SyncEngine env sealing room) := h
    exact (enqueueAll_drains hcleared e.pendingBatch).after rfl

theorem storeAndFanout_drains (h : e.Filed) (origin : Option PeerId) (v : ValidatedEvent env room) :
    Drains e (e.storeDeeds origin v) (e.storeAndFanout v) := by
  unfold storeDeeds storeAndFanout
  dsimp only
  have hwritten : Filed ({ e with store := (e.store.insert v).1 } : SyncEngine env sealing room) := h
  cases (e.store.insert v).2 with
  | some outcome =>
    refine (landing_drains hwritten [(v, outcome)] fun p hp => ⟨e.knownParents v, ?_⟩).after rfl
    rw [List.mem_singleton.mp hp]
    exact List.mem_cons_self
  | none => exact (enqueueStoreRetry_drains hwritten v).after rfl

theorem retryStoreLoop_drains (origins : EventId → Option PeerId) (ids : List EventId) (h : e.Filed) :
    Drains e (retryLoopDeeds origins ids e) (retryStoreLoop ids e) := by
  induction ids generalizing e with
  | nil => exact .of_queue h rfl
  | cons id ids ih =>
    unfold retryLoopDeeds retryStoreLoop
    cases hget : e.storeRetry.get? id with
    | none => exact ih h
    | some r =>
      dsimp only
      cases (e.store.insert r.event).2 with
      | some outcome =>
        have hone : Drains e [e.wroteDeed (r.event, outcome)] (applyInsertOutcome ({ e with
            store := (e.store.insert r.event).1, storeRetry := e.storeRetry.erase id } : SyncEngine env sealing room)
            outcome r.event) :=
          dequeued_drains h (applyInsertOutcome_storeRetry outcome r.event) (h id r hget) List.mem_cons_self
        refine (hone.trans (ih hone.filed)).more fun d hd => ?_
        rcases List.mem_append.mp hd with hd | hd
        · rw [List.mem_singleton.mp hd]
          exact List.mem_cons_self
        · exact List.mem_append_right (e.wroteDeed (r.event, outcome) :: .dequeued id :: _) hd
      | none =>
        unfold failRetry
        split_ifs
        · refine ⟨h.erase rfl, fun other hother => ?_⟩
          by_cases hsame : other = id
          · rw [hsame]
            exact Or.inr (Or.inr (by simp))
          · left
            show (e.storeRetry.erase id).contains other = true
            rwa [OrdMap.contains, OrdMap.get?_erase, if_neg hsame]
        · refine ⟨fun other r' hr' => ?_, fun other hother => Or.inl ?_⟩
          · rw [OrdMap.get?_insert] at hr'
            split_ifs at hr' with hsame
            · rw [← Option.some.inj hr', hsame]
              exact h id r hget
            · exact h other r' hr'
          · show (e.storeRetry.insert id _).contains other = true
            rw [OrdMap.contains, OrdMap.get?_insert]
            split_ifs
            · rfl
            · exact hother

theorem Move.drains (hmove : Move e es f) (h : e.Filed) : Drains e es f := by
  rcases hmove.unwritten_or with ⟨hsame, -⟩ | ⟨-, -, ⟨origin, rfl, rfl⟩ | ⟨origin, v, rfl, rfl⟩ | ⟨origins, rfl, rfl⟩⟩
  · exact .of_queue h hsame.storeRetry
  · exact flushStoreBatch_drains h origin
  · exact storeAndFanout_drains h origin v
  · exact retryStoreLoop_drains origins _ h

theorem story_drains (hstory : Story Move e es f) (h : e.Filed) : Drains e es f := by
  induction hstory with
  | refl => exact .of_queue h rfl
  | tail _ hmove ih => exact ih.trans (hmove.drains ih.filed)

/-- An item that is not in the first list comes with the second. -/
theorem exists_split {α : Type} {l₁ l₂ pre post : List α} {a : α} (ha : a ∉ l₁) (h : l₁ ++ l₂ = pre ++ a :: post) :
    ∃ pre', l₂ = pre' ++ a :: post := by
  rcases List.append_eq_append_iff.mp h with ⟨rest, -, hl⟩ | ⟨rest, hl, hpost⟩
  · exact ⟨rest, hl⟩
  · cases rest with
    | nil => exact ⟨[], hpost.symm⟩
    | cons b rest =>
      obtain ⟨rfl, -⟩ := List.cons.inj hpost
      exact absurd (hl ▸ List.mem_append_right pre List.mem_cons_self) ha

theorem failed_not_mem_outcomeDeeds (origin : Option PeerId) (outcome : InsertOutcome) (v w : ValidatedEvent env room) :
    .failed w ∉ e.outcomeDeeds origin outcome v := by
  cases outcome with
  | duplicate => exact List.not_mem_nil
  | inserted =>
    intro hmem
    rcases List.mem_cons.mp hmem with heq | hpeer
    · cases heq
    · obtain ⟨peer, -, heq⟩ := List.mem_map.mp hpeer
      cases heq

/-- A pass does nothing after a failure but give the event up. -/
theorem retryLoopDeeds_stops (origins : EventId → Option PeerId) (ids : List EventId)
    (e : SyncEngine env sealing room) {pre post : List (Deed env room)} {v : ValidatedEvent env room}
    (h : retryLoopDeeds origins ids e = pre ++ .failed v :: post) :
    ∀ d ∈ post, ∃ id, d = .dequeued id ∨ d = .degraded id := by
  induction ids generalizing e pre with
  | nil => exact absurd h (by simp [retryLoopDeeds])
  | cons id ids ih =>
    unfold retryLoopDeeds at h
    cases hget : e.storeRetry.get? id with
    | none =>
      rw [hget] at h
      exact ih e h
    | some r =>
      rw [hget] at h
      dsimp only at h
      cases hoverall : (e.store.insert r.event).2 with
      | some outcome =>
        rw [hoverall] at h
        refine (exists_split ?_ h).elim fun _ hrest => ih _ hrest
        intro hmem
        simp only [List.mem_cons] at hmem
        rcases hmem with heq | heq | hmem
        · cases heq
        · cases heq
        · exact failed_not_mem_outcomeDeeds _ _ _ _ hmem
      | none =>
        rw [hoverall] at h
        dsimp only at h
        -- the failure is the first deed, and those that give up follow it
        have hgiven : ∀ d ∈ (if r.attempts + 1 ≥ e.config.storeRetryAttempts then [.dequeued id, .degraded id]
            else [] : List (Deed env room)), ∃ id, d = .dequeued id ∨ d = .degraded id := by
          intro d hd
          split_ifs at hd
          · simp only [List.mem_cons, List.not_mem_nil, or_false] at hd
            exact ⟨id, hd⟩
          · cases hd
        cases pre with
        | nil =>
          obtain ⟨-, hpost⟩ := List.cons.inj h
          rwa [← hpost]
        | cons first pre =>
          obtain ⟨-, hpost⟩ := List.cons.inj h
          intro d hd
          exact hgiven d (hpost ▸ List.mem_append_right _ (List.mem_cons_of_mem _ hd))

end SyncEngine

/-! ### Runs -/

namespace Session

variable {s : Session env sealing room}

/-- What is known of a session whose engine was opened and called. -/
structure Sound (cap : Nat) (s : Session env sealing room) : Prop where
  now : Tracks cap (Outbox.after s.past) s.engine
  ever : ∀ past, past <+: s.past → (Outbox.after past).Orderly cap
  filed : s.engine.Filed

theorem Sound.call {cap : Nat} (h : s.Sound cap) (c : Call) : (s.call c).Sound cap := by
  have hstory := SyncEngine.step_story (e := s.engine) s.past c
  have hleads : Leads Outbox.enter (Tracks cap) (Outbox.Orderly cap) (Outbox.after s.past) (s.engine.deeds s.past c)
      (s.engine.step c.input) :=
    hstory.leads (fun _ _ ht => ht.toOrderly) (fun _ _ _ _ ht hm => ht.move hm) h.now
  have hafter : ∀ es, Outbox.after (s.past ++ es) = es.foldl Outbox.enter (Outbox.after s.past) :=
    fun _ => List.foldl_append ..
  refine ⟨?_, fun past hpast => ?_, (SyncEngine.story_drains hstory h.filed).filed⟩
  · show Tracks cap (Outbox.after (s.past ++ s.engine.deeds s.past c)) (s.engine.step c.input)
    rw [hafter]
    exact hleads.1
  · rcases List.prefix_or_prefix_of_prefix hpast (List.prefix_append s.past _) with hearly | ⟨rest, rfl⟩
    · exact h.ever past hearly
    · rw [hafter]
      exact hleads.2 rest ((List.prefix_append_right_inj s.past).mp hpast)

theorem opened_sound (config : SyncConfig) (seed : Option SigningKey) (store : EventStore env room)
    (tables : SyncTables env room) :
    (⟨.restore config seed store tables, []⟩ : Session env sealing room).Sound config.maxStoreRetryTotal := by
  have hempty : (Outbox.after ([] : List (Deed env room))).Orderly config.maxStoreRetryTotal :=
    ⟨List.nodup_nil, List.nodup_nil, fun _ hid => absurd hid List.not_mem_nil, fun _ hp => absurd hp List.not_mem_nil,
      Nat.zero_le _⟩
  refine ⟨⟨hempty, rfl, fun _ hid => absurd hid List.not_mem_nil, rfl⟩, fun past hpast => ?_, fun id r hr => ?_⟩
  · rw [List.prefix_nil.mp hpast]
    exact hempty
  · cases hr

end Session

/-- The session of an engine that is opened over a store and called. -/
def Session.run (config : SyncConfig) (seed : Option SigningKey) (store : EventStore env room)
    (tables : SyncTables env room) (calls : List Call) : Session env sealing room :=
  calls.foldl Session.call ⟨.restore config seed store tables, []⟩

/-- Whatever writes fail: at every point of a run each event was reported at most once and pushed to each peer at most
once, and had been written by then, and the queue is within its cap. What was written is stored, and the journal's queue
is the engine's. A retry pass tells nothing after a failure. An event that leaves the queue in a call was written in it
or given up with a decision. -/
theorem recovered_once (config : SyncConfig) (seed : Option SigningKey) (store : EventStore env room)
    (tables : SyncTables env room) (calls : List Call) :
    let s : Session env sealing room := .run config seed store tables calls
    (∀ past, past <+: s.past →
      (Outbox.after past).reported.Nodup ∧ (Outbox.after past).fannedOut.Nodup ∧
      (∀ id ∈ (Outbox.after past).reported, id ∈ (Outbox.after past).written) ∧
      (∀ p ∈ (Outbox.after past).fannedOut, p.1 ∈ (Outbox.after past).written) ∧
      (Outbox.after past).waiting.toList.length ≤ config.maxStoreRetryTotal) ∧
    (∀ id ∈ (Outbox.after s.past).written, s.engine.store.contains id = true) ∧
    (∀ id, id ∈ (Outbox.after s.past).waiting ↔ s.engine.storeRetry.contains id = true) ∧
    (∀ origins pre v post, s.engine.refillTokens.expireSuspectTip.retryStoreDeeds origins = pre ++ .failed v :: post →
      ∀ d ∈ post, ∃ id, d = .dequeued id ∨ d = .degraded id) ∧
    ∀ c id, s.engine.storeRetry.contains id = true → (s.call c).engine.storeRetry.contains id = false →
      (∃ v outcome known, .wrote v outcome known ∈ s.engine.deeds s.past c ∧ v.eventId = id) ∨
        .degraded id ∈ s.engine.deeds s.past c := by
  intro s
  have hsound : s.Sound config.maxStoreRetryTotal := List.foldlRecOn calls Session.call
    (motive := fun s : Session env sealing room => s.Sound config.maxStoreRetryTotal)
    (Session.opened_sound config seed store tables) fun s hs c _ => hs.call c
  refine ⟨fun past hpast => ?_, hsound.now.stored, fun id => ?_, fun origins pre v post hpass => ?_, ?_⟩
  · have horderly := hsound.ever past hpast
    refine ⟨horderly.reportedOnce, horderly.fannedOutOnce, horderly.reported, fun p hp => ?_, horderly.waiting⟩
    exact horderly.reported p.1 (horderly.fannedOut p hp)
  · rw [hsound.now.queue, OrdSet.mem_def, OrdMap.get?_mapValues, Option.isSome_map]
    rfl
  · exact SyncEngine.retryLoopDeeds_stops origins _ _ hpass
  · intro c id hwaited hleft
    have hdrains := SyncEngine.story_drains (SyncEngine.step_story s.past c) hsound.filed
    refine (hdrains.left id hwaited).resolve_left fun hstill => ?_
    rw [show (s.call c).engine = s.engine.step c.input from rfl, hstill] at hleft
    cases hleft

/-- The first write fails; the tick writes the event and reports it. -/
example : (Outbox.after (Session.run .standard none (.openEmpty [false]) ⟨.empty, none, .empty, .empty⟩
    [.publish (Toy.frame (1, Toy.genesis)), .onTick] : Session toyEnv Toy.sealing Toy.room).past).reported =
      [Bytes32.ofNat 1] := by decide +kernel

end IrohRooms
